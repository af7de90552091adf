import ApiLint.Proofs.Document.Address
import ApiLint.Proofs.Document.Grammar

/-!
# What the envelope promises about the schemas

The grammar of envelopes goes down into the schemas of the components, through the same keywords as
a walk. So if an envelope has no issue, then no schema in line of a component has one, and an
enumeration is always a list.
-/

namespace ApiLint

namespace Envelope

/-- A value that the shape of schemas admits, at whatever path it is met. -/
def IsAdmitted (raw : Raw) : Prop := ∃ path, schemaIssues path raw = []

variable {es : Entries} {name : String} {raw value : Raw}

/-- What is admitted at one path is admitted at every path. -/
lemma isAdmitted_iff : IsAdmitted raw ↔ IsSchema raw := by
  constructor
  · rintro ⟨path, h⟩
    exact (schemas_eq_nil_iff raw path).1.mp h
  · exact fun h => ⟨[], (schemas_eq_nil_iff raw []).1.mpr h⟩

/-- A keyword of an admitted schema has a value that it may have. -/
lemma admits_of_field? (h : IsAdmitted (.dict es)) (keyword : Keyword)
    (hkeyword : (name, keyword) ∈ keywords) (hvalue : es.field? name = some value) :
    keyword.Admits value :=
  isSchema_dict_iff.mp (isAdmitted_iff.mp h) _ hkeyword value (Entries.mem_of_field? hvalue)

/-- The properties of an admitted schema are a mapping of admitted schemas. -/
lemma exists_dict_of_properties (h : IsAdmitted (.dict es))
    (hvalue : es.field? "properties" = some value) :
    ∃ entries, value = .dict entries ∧ ∀ e ∈ entries, IsAdmitted e.2 := by
  obtain ⟨hentries⟩ : IsSchemaMap value :=
    admits_of_field? h .schemaMap (by simp [keywords]) hvalue
  exact ⟨_, rfl, fun e he => isAdmitted_iff.mpr (hentries e he)⟩

/-- The items of an admitted schema are admitted. -/
lemma isAdmitted_of_items (h : IsAdmitted (.dict es)) (hvalue : es.field? "items" = some value) :
    IsAdmitted value :=
  isAdmitted_iff.mpr (admits_of_field? h .schema (by simp [keywords]) hvalue)

/-- The additional properties of an admitted schema are admitted, or a boolean. -/
lemma isAdmitted_of_additional (h : IsAdmitted (.dict es))
    (hvalue : es.field? "additionalProperties" = some value) :
    (∃ b, value = .bool b) ∨ IsAdmitted value := by
  have hadditional : IsSchemaOrFlag value :=
    admits_of_field? h .schemaOrBoolean (by simp [keywords]) hvalue
  exact (isSchemaOrFlag_iff.mp hadditional).imp_right isAdmitted_iff.mpr

/-- The members of a composition of an admitted schema are a list of admitted schemas. -/
lemma exists_list_of_composition (h : IsAdmitted (.dict es)) {kind : CompositionKind}
    (hvalue : es.field? kind.keyword = some value) :
    ∃ raws, value = .list raws ∧ ∀ raw ∈ raws, IsAdmitted raw := by
  have hkeyword : (kind.keyword, Keyword.schemaList) ∈ keywords := by
    cases kind <;> simp [keywords, CompositionKind.keyword]
  obtain ⟨hmembers⟩ : IsSchemaList value := admits_of_field? h _ hkeyword hvalue
  exact ⟨_, rfl, fun raw hraw => isAdmitted_iff.mpr (hmembers raw hraw)⟩

/-- The children of an admitted schema are admitted. -/
lemma isAdmitted_of_mem_indexedChildren (h : IsAdmitted (.dict es)) {edge : Edge} {index : Nat}
    {raw : Raw} (hchild : (edge, index, raw) ∈ Walk.indexedChildren es.outline) :
    IsAdmitted raw := by
  have hstep := Walk.mem_indexedChildren_iff.mp hchild
  cases edge with
  | property name =>
    obtain ⟨e, he, heq⟩ := List.mem_map.mp hstep.2
    cases heq
    obtain ⟨entries, hentries, hall⟩ :=
      exists_dict_of_properties h (Entries.field?_of_mem_mappingAt he)
    cases hentries
    exact hall e he
  | items => exact isAdmitted_of_items h (Entries.field?_of_items hstep.2)
  | additional =>
    obtain ⟨hvalue, hmapping⟩ := Entries.field?_of_additional hstep.2
    rcases isAdmitted_of_additional h hvalue with ⟨b, rfl⟩ | hadmitted
    · cases hmapping
    · exact hadmitted
  | member kind =>
    obtain ⟨hlist, hmember⟩ := Entries.field?_of_member hchild
    obtain ⟨raws, hraws, hall⟩ := exists_list_of_composition h hlist
    cases hraws
    exact hall raw (List.mem_of_getElem? hmember)

lemma isAdmitted_of_mem_outline (h : IsAdmitted (.dict es)) {e : Edge × Raw}
    (he : e ∈ es.outline.children) : IsAdmitted e.2 := by
  rw [← Walk.map_indexedChildren] at he
  obtain ⟨⟨edge, index, raw⟩, hchild, rfl⟩ := List.mem_map.mp he
  exact isAdmitted_of_mem_indexedChildren h hchild

/-- The schemas in line of an admitted schema are admitted. -/
lemma isAdmitted_of_mem_inlineSchemas (h : IsAdmitted (.dict es)) {s : InlineSchema}
    (hs : s ∈ es.inlineSchemas) : IsAdmitted (.dict s.entries) := by
  refine Entries.inlineSchemas_induction
    (motive := fun es s => IsAdmitted (.dict es) → IsAdmitted (.dict s.entries))
    (fun es h => h) ?_ hs h
  intro es edge index raw i below t hchild hraw _ ih h
  obtain ⟨rfl, _⟩ := Raw.inline?_eq_some_iff.mp hraw
  exact ih (isAdmitted_of_mem_indexedChildren h (List.fst_mem_of_mem_zipIdx hchild))

/-- The type of an admitted schema is a text, if there is one. -/
lemma isWritable_type (h : IsAdmitted (.dict es)) : (es.field "type").isWritable = true := by
  cases hvalue : es.field? "type" with
  | none => simp [Entries.field, hvalue]
  | some value =>
    obtain ⟨name, -, rfl⟩ : IsTypeName value := admits_of_field? h .type (by simp [keywords]) hvalue
    rw [Entries.field_of_field? hvalue, Raw.isWritable_str]

/-- The enumeration of an admitted schema is a list. -/
lemma exists_list_of_enum (h : IsAdmitted (.dict es)) (hvalue : es.field? "enum" = some value) :
    ∃ items, value = .list items := by
  have harray : ∃ type ∈ [ValueType.array], type.holds value = true :=
    admits_of_field? h (.plain [.array]) (by simp [keywords]) hvalue
  rwa [exists_mem_singleton_iff, holds_array_iff] at harray

/-- The required names of an admitted schema are a list of texts. -/
lemma exists_texts_of_required (h : IsAdmitted (.dict es))
    (hvalue : es.field? "required" = some value) :
    ∃ texts : List String, value = .list (texts.map .str) := by
  obtain ⟨items, rfl, hitems⟩ : IsTextList value :=
    admits_of_field? h .required (by simp [keywords]) hvalue
  have hrange : items ∈ Set.range (List.map Raw.str) := by
    rw [Set.range_list_map]
    exact fun x hx => (hitems x hx).imp fun _ => Eq.symm
  obtain ⟨texts, rfl⟩ := hrange
  exact ⟨texts, rfl⟩

/-- The required names of an admitted schema are a list. -/
lemma exists_list_of_required (h : IsAdmitted (.dict es))
    (hvalue : es.field? "required" = some value) : ∃ items, value = .list items := by
  obtain ⟨texts, rfl⟩ := exists_texts_of_required h hvalue
  exact ⟨_, rfl⟩

lemma isDiscriminator_of_field? (h : IsAdmitted (.dict es))
    (hvalue : es.field? "discriminator" = some value) : isDiscriminator value = true :=
  isDiscriminator_iff.mpr
    (admits_of_field? h .discriminator (by simp [keywords]) hvalue)

/-- If the envelope of a document has no issues, its components are admitted. -/
lemma isAdmitted_of_mem_components {document : Raw} (h : issues document = .ok []) {cs : Components}
    (hcs : Components.ofDocument document = .ok cs) {e : Raw × Raw} (he : e ∈ cs.entries) :
    IsAdmitted e.2 := by
  have hplace := Components.at?_schemasPath hcs (List.ne_nil_of_mem he)
  have hschemas : IsSchemaMap (.dict cs.entries) := by
    obtain ⟨version, openapi, swagger, components, definitions⟩ := isDocument_of_issues h
    rw [Version.schemasPath] at hplace
    cases hfamily : cs.version.family with
    | openapi =>
      rw [hfamily] at hplace
      obtain ⟨found, hfound, hplace⟩ := Option.bind_eq_some_iff.mp hplace
      obtain ⟨hschemas⟩ := components found hfound
      exact hschemas _ ((Raw.at?_singleton ..).symm.trans hplace)
    | swagger =>
      rw [hfamily] at hplace
      exact definitions _ ((Raw.at?_singleton ..).symm.trans hplace)
  obtain ⟨hentries⟩ := hschemas
  exact isAdmitted_iff.mpr (hentries e he)

end Envelope

end ApiLint
