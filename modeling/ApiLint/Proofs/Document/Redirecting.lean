import ApiLint.Proofs.Document.Correspondence
import ApiLint.Proofs.Raw.Redirecting

/-!
# Redirected schemas correspond

If the references of a document are put in the place of others, and those lead to components whose
shapes are redirected alike, then the redirected schemas correspond to the schemas as they were. It
does not matter what becomes of references to components that no schema in question refers to.
-/

namespace ApiLint

namespace Components

/-- A raw schema whose references, as far as a loader follows them, are to components with a
property. -/
inductive RefersWithin (cs : Components) (P : String → Prop) : Raw → Prop
  | other {raw : Raw} (h : raw.isMapping = false) : RefersWithin cs P raw
  | reference {raw : Raw} {name : String} (h : cs.referredName? raw = some name) (hname : P name) :
      RefersWithin cs P raw
  | inline {es : Entries} (h : es.field? "$ref" = none)
      (hbelow : ∀ e ∈ es.outline.children, RefersWithin cs P e.2) : RefersWithin cs P (.dict es)

namespace RefersWithin

variable {cs : Components} {P Q : String → Prop} {raw : Raw} {es : Entries}

lemma imp (h : cs.RefersWithin P raw) (himp : ∀ name, P name → Q name) :
    cs.RefersWithin Q raw := by
  induction h with
  | other hmapping => exact .other hmapping
  | reference hreferred hname => exact .reference hreferred (himp _ hname)
  | inline hplain _ ih => exact .inline hplain ih

lemma name (h : cs.RefersWithin P raw) {name : String} (hname : cs.referredName? raw = some name) :
    P name := by
  obtain ⟨es, text, rfl, hreference, _⟩ := exists_dict_of_referredName? hname
  cases h with
  | other hmapping => cases hmapping
  | reference hreferred hP =>
    rw [hname] at hreferred
    cases hreferred
    exact hP
  | inline hplain => simp [hplain] at hreference

lemma children (h : cs.RefersWithin P (.dict es)) (hplain : es.field? "$ref" = none) :
    ∀ e ∈ es.outline.children, cs.RefersWithin P e.2 := by
  cases h with
  | other hmapping => cases hmapping
  | reference hreferred =>
    obtain ⟨_, _, heq, hreference, _⟩ := exists_dict_of_referredName? hreferred
    cases heq
    simp [hplain] at hreference
  | inline _ hbelow => exact hbelow

end RefersWithin

/-- Raw schemas of which the second is the first redirected, with references to components with a
property. -/
structure Redirected (cs : Components) (P : String → Prop) (g : List String → Raw → Raw)
    (raw raw' : Raw) : Prop where
  within : cs.RefersWithin P raw
  eq : ∃ path, raw' = raw.redirect g path .schema

section

variable {cs cs' : Components} {P : String → Prop} {ρ : String → String → Prop}
  {E : Raw → Raw → Prop} {g : List String → Raw → Raw} {es : Entries}

lemma isInert_under_of_notMem_leading {name : String} (h : name ∉ Entries.leading) :
    (Role.under .schema (.str name)).isInert = true := by
  have hall : ∀ f ∈ Role.keywords .schema, f.1 ∈ Entries.leading ∨ f.2.isInert = true := by decide
  change ((Fields.find? (Role.keywords .schema) name).getD .plain).isInert = true
  cases hfound : Fields.find? (Role.keywords .schema) name with
  | none => rfl
  | some role => exact (hall _ (Fields.mem_of_find? hfound)).resolve_left h

lemma mappingsAlike_redirect {raw : Raw}
    (h : ∀ fields, raw = .dict fields → ∀ e ∈ fields, ∀ path, E e.2 (e.2.redirect g path .schema))
    (path : List String) : Entries.MappingsAlike E raw (raw.redirect g path .schemaMap) := by
  by_cases hdict : ∃ fields, raw = .dict fields
  · obtain ⟨fields, rfl⟩ := hdict
    refine .inl ⟨fields, _, rfl, rfl, ?_⟩
    refine ((List.forall₂_and_left _ _).mpr ⟨h fields rfl, Raw.forall₂_redirectEntries fields _⟩).imp
      ?_
    rintro e e' ⟨hE, hkey, path', hvalue⟩
    exact ⟨hkey, hvalue ▸ hE path'⟩
  · have hnot : ∀ fields, raw ≠ .dict fields := not_exists.mp hdict
    exact .inr ⟨hnot, Raw.redirect_of_not_dict rfl hnot _⟩

lemma listsAlike_redirect {raw : Raw}
    (h : ∀ raws, raw = .list raws → ∀ x ∈ raws, ∀ path, E x (x.redirect g path .schema))
    (path : List String) : Entries.ListsAlike E raw (raw.redirect g path .schemaList) := by
  by_cases hlist : ∃ raws, raw = .list raws
  · obtain ⟨raws, rfl⟩ := hlist
    refine .inl ⟨raws, _, rfl, rfl, ?_⟩
    refine ((List.forall₂_and_left _ _).mpr ⟨h raws rfl, Raw.forall₂_redirectAll raws _ 0⟩).imp ?_
    rintro x x' ⟨hE, path', hredirect⟩
    exact hredirect ▸ hE path'
  · have hnot : ∀ raws, raw ≠ .list raws := not_exists.mp hlist
    exact .inr ⟨hnot, Raw.redirect_of_not_list hnot _⟩

/-- A redirected schema is written like the schema as it was. -/
lemma alike_redirect (hnull : E .null .null)
    (hadditional : ∀ path, E (es.field "additionalProperties")
      ((es.field "additionalProperties").redirect g path .schema))
    (hbelow : ∀ e ∈ es.outline.children, ∀ path, E e.2 (e.2.redirect g path .schema))
    (path : List String) : es.Alike E (Raw.redirectEntries g path .schema es) := by
  obtain ⟨hproperties, hitems, -, honeOf, hanyOf, hallOf⟩ :=
    (SchemaNode.forall_mem_children_iff
      (P := fun raw => ∀ path, E raw (raw.redirect g path .schema))).mp hbelow
  constructor
  · intro name hname
    apply Entries.field?_redirect_inert _ (isInert_under_of_notMem_leading hname)
    rintro rfl
    simp [Entries.leading] at hname
  · rw [Entries.field_redirectEntries (by simp)]
    refine mappingsAlike_redirect ?_ _
    intro fields hfields e he
    refine hproperties (e.1.text, e.2) (List.mem_map.mpr ⟨e, ?_, rfl⟩)
    rwa [Entries.mappingAt, hfields]
  · rw [Entries.field_redirectEntries (by simp)]
    cases hitem : (es.field "items").isNull with
    | true =>
      rw [Raw.isNull_iff.mp hitem]
      exact hnull
    | false => exact hitems _ (by simp [Entries.outline, hitem]) _
  · rw [Entries.field_redirectEntries (by simp)]
    exact hadditional _
  · intro kind
    have hunder : Role.under .schema (.str kind.keyword) = .schemaList := by cases kind <;> rfl
    rw [Entries.field_redirectEntries (by cases kind <;> decide), hunder]
    refine listsAlike_redirect ?_ _
    intro raws hraws x hx
    have hmem : x ∈ es.listAt kind.keyword := by rwa [Entries.listAt, hraws]
    cases kind with
    | oneOf => exact honeOf x hmem
    | anyOf => exact hanyOf x hmem
    | allOf => exact hallOf x hmem

lemma redirect_of_not_mapping {raw : Raw} (h : raw.isMapping = false) (path : List String) :
    raw.redirect g path .schema = raw := by
  apply Raw.redirect_of_not_dict rfl
  rintro es rfl
  cases h

/-- If references are redirected to components with related names, and those have shapes of which
one is the other redirected, then the redirected schemas correspond. -/
lemma corresponds_of_redirect
    (hreference : ∀ path text name, cs.referenceName? text = some name → P name →
      ∃ text' name', g path (.str text) = .str text' ∧ cs'.referenceName? text' = some name'
        ∧ ρ name name')
    (hends : ∀ name name', ρ name name' → ∃ (target target' : String) (es : Entries)
      (path : List String), cs.EndsAt name target (.dict es)
        ∧ cs'.EndsAt name' target' (.dict (Raw.redirectEntries g path .schema es))
        ∧ cs.RefersWithin P (.dict es)) :
    cs.Corresponds cs' ρ (cs.Redirected P g) where
  null := ⟨.other rfl, [], rfl⟩
  form := by
    rintro raw raw' ⟨hwithin, path, rfl⟩
    cases hwithin with
    | other hmapping =>
      rw [redirect_of_not_mapping hmapping]
      exact .other hmapping
    | reference hname hP =>
      obtain ⟨es, text, rfl, hfield, htext⟩ := exists_dict_of_referredName? hname
      obtain ⟨text', name', hg, hname', hnames⟩ :=
        hreference (path ++ ["$ref"]) text _ htext hP
      refine .reference hname ?_ hnames
      rw [Raw.redirect, referredName?_of_reference? _, hname']
      rw [reference?, Entries.field?_redirect_reference, hfield, Option.map_some, hg]
    | @inline es hplain hbelow =>
      -- No reference appears in a schema that has none, since only the text of one is replaced.
      refine .inline hplain ?_ (alike_redirect ⟨.other rfl, [], rfl⟩ ?_ ?_ path)
      · rw [Entries.field?_redirect_reference, hplain]
        rfl
      · intro path
        refine ⟨?_, path, rfl⟩
        obtain ⟨-, -, hadditional, -⟩ := SchemaNode.forall_mem_children_iff.mp hbelow
        cases hmapping : (es.field "additionalProperties").isMapping with
        | true => exact hadditional _ (by simp [Entries.outline, hmapping])
        | false => exact .other hmapping
      · exact fun e he path => ⟨hbelow e he, path, rfl⟩
  ends := by
    intro name name' hnames
    obtain ⟨target, target', es, path, h, h', hwithin⟩ := hends name name' hnames
    exact ⟨target, target', es, _, h, h', hwithin, path, rfl⟩

end

/-! ### Documents -/

/-- Components with other references in their schemas. -/
def redirect (g : List String → Raw → Raw) (cs : Components) : Components :=
  { cs with entries := Raw.redirectEntries g cs.version.schemasPath .schemaMap cs.entries }

section

variable {g : List String → Raw → Raw}

lemma entriesAt_nil_redirect (whole path : List String) (raw : Raw) :
    entriesAt whole [] (raw.redirect g path .schemaMap)
      = (entriesAt whole [] raw).map (Raw.redirectEntries g path .schemaMap) := by
  cases raw <;> rfl

lemma entriesAt_cons_redirect {whole path last keys : List String} {key : String} {role : Role}
    (hrole : role ≠ .schema)
    (h : ∀ raw, entriesAt whole keys (raw.redirect g (path ++ [key]) (role.under (.str key)))
      = (entriesAt whole keys raw).map (Raw.redirectEntries g last .schemaMap)) (raw : Raw) :
    entriesAt whole (key :: keys) (raw.redirect g path role)
      = (entriesAt whole (key :: keys) raw).map (Raw.redirectEntries g last .schemaMap) := by
  cases raw with
  | dict es =>
    have hfield : Entries.field (Raw.redirectEntries g path role es) key
        = (Entries.field es key).redirect g (path ++ [key]) (role.under (.str key)) := by
      rw [Entries.field, Entries.field?_redirectEntries, Entries.field]
      simp only [hrole, false_and, if_false]
      cases Entries.field? es key <;> rfl
    rw [Raw.redirect, entriesAt, entriesAt, hfield, ← h, Raw.isVoid_redirect]
    split <;> rfl
  | _ => rfl

lemma entriesAt_redirect (whole : List String) (family : Family) (document : Raw) :
    entriesAt whole family.schemasPath (document.redirect g [] .document)
      = (entriesAt whole family.schemasPath document).map
        (Raw.redirectEntries g family.schemasPath .schemaMap) := by
  cases family with
  | openapi =>
    apply entriesAt_cons_redirect (by decide)
    apply entriesAt_cons_redirect (by decide)
    exact entriesAt_nil_redirect whole _
  | swagger =>
    apply entriesAt_cons_redirect (by decide)
    exact entriesAt_nil_redirect whole _

/-- The version of a document is no reference. -/
lemma version_redirect (document : Raw) :
    Version.ofDocument (document.redirect g [] .document) = Version.ofDocument document := by
  cases document with
  | dict es =>
    have hfield : ∀ family : Family,
        Entries.field? (Raw.redirectEntries g [] .document es) family.name
          = Entries.field? es family.name := by
      intro family
      apply Entries.field?_redirect_inert
      · cases family <;> decide
      · cases family <;> rfl
    simp only [Raw.redirect, Version.ofDocument, hfield]
  | _ => rfl

/-- The components of a redirected document. -/
lemma ofDocument_redirect (document : Raw) :
    ofDocument (document.redirect g [] .document) = (ofDocument document).map (redirect g) :=
  ofDocument_map (version_redirect document) fun whole family =>
    entriesAt_redirect whole family document

end

/-! ### Schemas that are read -/

variable {cs : Components}

lemma exists_builds_of_similar {es : Entries} {node : SchemaNode Schema}
    (h : SchemaNode.Similar cs.Builds es.outline node) :
    ∀ e ∈ es.outline.children, ∃ schema, cs.Builds e.2 schema := by
  intro e he
  obtain ⟨e', _, hbuilds⟩ := exists_of_forall₂_of_mem_left h.forall₂_children he
  exact ⟨e'.2, hbuilds.2⟩

/-- A raw schema that is read refers to components that there are. -/
lemma Builds.refersWithin {raw : Raw} {schema : Schema} (hraw : raw.isTextKeyed = true)
    (h : cs.Builds raw schema) : cs.RefersWithin (· ∈ cs.names) raw := by
  induction hsize : sizeOf raw using Nat.strongRecOn generalizing raw schema with
  | _ size ih =>
    obtain ⟨es, rfl⟩ := exists_dict_of_builds h
    cases hreference : Entries.field? es "$ref" with
    | some reference =>
      obtain ⟨text, name, rfl, hname, hmem, _⟩ := builds_reference hreference h
      have hreferred : cs.referredName? (.dict es) = some name := by
        rw [referredName?, reference?, hreference]
        exact hname
      exact .reference hreferred hmem
    | none =>
      obtain ⟨node, _, _, _, hsimilar⟩ := builds_inline hraw hreference h
      apply RefersWithin.inline hreference
      intro e he
      obtain ⟨schema', hbuilds⟩ := exists_builds_of_similar hsimilar e he
      have hlt := Entries.sizeOf_lt_of_mem_outline he
      simp only [Raw.dict.sizeOf_spec] at hsize
      exact ih _ (by omega) (Entries.isTextKeyed_of_mem_outline hraw he) hbuilds rfl

end Components

namespace LoadedDocument

variable {document : Raw} {d : LoadedDocument} {cs : Components}

/-- The components of a loaded document have shapes, which refer to components that there are. -/
lemma exists_shape (hdocument : document.isTextKeyed = true)
    (hcs : Components.ofDocument document = .ok cs) (h : ofRaw document = .ok d) {name : String}
    (hname : name ∈ cs.names) :
    ∃ target es, cs.EndsAt name target (.dict es)
      ∧ cs.RefersWithin (· ∈ cs.names) (.dict es) := by
  have hkeyed := Components.isTextKeyed_of_ofDocument hdocument hcs
  obtain ⟨e, he, rfl⟩ := List.mem_map.mp hname
  obtain ⟨c, _, henter⟩ := exists_of_forall₂_of_mem_left (forall₂_enters hdocument hcs h) he
  obtain ⟨target, es, htarget, hes, hplain, _, hsimilar⟩ := henter.shape
  have hbody := Raw.field?_text_of_mem hkeyed he
  refine ⟨target, es, (Components.aliasTarget_eq_ok_iff hbody).mp htarget, .inline hplain ?_⟩
  intro child hchild
  obtain ⟨schema, hbuilds⟩ := Components.exists_builds_of_similar hsimilar child hchild
  exact hbuilds.refersWithin (Entries.isTextKeyed_of_mem_outline hes hchild)

end LoadedDocument

end ApiLint
