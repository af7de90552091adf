import ApiLint.Proofs.Document.Correspondence
import ApiLint.Proofs.Lint.Findings

/-!
# Findings about corresponding schemas

What the rules of the library find about a raw schema, they find about every corresponding one:
below the pointer to it, and up to the names of components that messages show.
-/

namespace ApiLint

/-! ### Lists in step -/

lemma forall₂_zipIdx {α β : Type} {R : α → β → Prop} {as : List α} {bs : List β}
    (h : List.Forall₂ R as bs) (k : Nat) :
    List.Forall₂ (fun a b => R a.1 b.1 ∧ a.2 = b.2) (as.zipIdx k) (bs.zipIdx k) := by
  induction h generalizing k with
  | nil => exact .nil
  | cons head _ ih => exact .cons ⟨head, rfl⟩ (ih (k + 1))

lemma forall₂_flatMap {α β γ δ : Type} {R : α → β → Prop} {S : γ → δ → Prop} {f : α → List γ}
    {f' : β → List δ} {as : List α} {bs : List β} (h : List.Forall₂ R as bs)
    (hf : ∀ a ∈ as, ∀ b, R a b → List.Forall₂ S (f a) (f' b)) :
    List.Forall₂ S (as.flatMap f) (bs.flatMap f') := by
  induction h with
  | nil => exact .nil
  | cons head _ ih =>
    exact List.rel_append (hf _ (List.mem_cons_self ..) _ head)
      (ih fun a ha => hf a (List.mem_cons_of_mem _ ha))

namespace Walk

/-- Related children have the same indices. -/
lemma forall₂_indexedChildren {σ τ : Type} {R : σ → τ → Prop} {a : SchemaNode σ} {b : SchemaNode τ}
    (h : SchemaNode.Similar R a b) :
    List.Forall₂ (fun c c' => c.1 = c'.1 ∧ c.2.1 = c'.2.1 ∧ R c.2.2 c'.2.2) (indexedChildren a)
      (indexedChildren b) := by
  obtain ⟨hproperties, hitems, hadditional, hcomposition⟩ := SchemaNode.similar_iff.mp h
  refine List.rel_append (List.rel_append (List.rel_append ?_ ?_) ?_) ?_
  · rw [List.forall₂_map_left_iff, List.forall₂_map_right_iff]
    exact hproperties.imp fun _ _ hproperty => ⟨congrArg _ hproperty.1, rfl, hproperty.2⟩
  · rw [List.forall₂_map_left_iff, List.forall₂_map_right_iff]
    exact hitems.imp fun _ _ hchild => ⟨rfl, rfl, hchild⟩
  · rw [List.forall₂_map_left_iff, List.forall₂_map_right_iff]
    exact hadditional.imp fun _ _ hchild => ⟨rfl, rfl, hchild⟩
  · have hkinds : List.Forall₂ Eq CompositionKind.all CompositionKind.all :=
      List.forall₂_eq_eq_eq ▸ rfl
    apply forall₂_flatMap hkinds
    rintro kind - _ rfl
    exact forall₂_mapIdx (hcomposition kind) fun _ _ _ hchild => ⟨rfl, rfl, hchild⟩

end Walk

/-! ### Findings that echo others -/

/-- The names that a message shows for members of compositions that correspond: names of components
that do, or the same place in a composition. -/
inductive SameMember (ρ : String → String → Prop) : String → String → Prop
  | component {name name' : String} (h : ρ name name') : SameMember ρ name name'
  | inline (index : Nat) : SameMember ρ s!"<inline #{index}>" s!"<inline #{index}>"

/-- A finding that says below one pointer what another one says below another, up to the names of
members of compositions. -/
inductive Finding.Echoes (ρ : String → String → Prop) (base base' : Pointer) :
    Finding → Finding → Prop
  | mismatch (segments : List String) :
      Echoes ρ base base' (Matching.mismatch (base.join segments))
        (Matching.mismatch (base'.join segments))
  | missing {member member' : String} (h : SameMember ρ member member') (rule property : String)
      (segments : List String) :
      Echoes ρ base base'
        ⟨rule, base.join segments, Discrimination.missingMessage member property,
          .discriminatorPropertyMissing⟩
        ⟨rule, base'.join segments, Discrimination.missingMessage member' property,
          .discriminatorPropertyMissing⟩
  | notRequired {member member' : String} (h : SameMember ρ member member')
      (rule property : String) (segments : List String) :
      Echoes ρ base base'
        ⟨rule, base.join segments, Discrimination.notRequiredMessage member property,
          .discriminatorNotRequired⟩
        ⟨rule, base'.join segments, Discrimination.notRequiredMessage member' property,
          .discriminatorNotRequired⟩

namespace Entries.Alike

variable {E : Raw → Raw → Prop} {es es' : Entries}

lemma rawLiterals_eq (h : es.Alike E es') : es'.rawLiterals = es.rawLiterals := by
  have helements : es'.elementsAt "enum" = es.elementsAt "enum" := by
    rw [elementsAt, elementsAt, h.field_eq (by decide)]
  rw [rawLiterals, rawLiterals, h.other _ (by decide), h.other _ (by decide), helements]

lemma nullable_eq (h : es.Alike E es') : es'.outline.nullable = es.outline.nullable := by
  simp only [outline]
  rw [h.field_eq (by decide), h.field_eq (by decide)]

lemma required_eq (h : es.Alike E es') : es'.outline.required = es.outline.required := by
  simp only [outline, elementsAt]
  rw [h.field_eq (by decide)]

lemma discriminatorProperty?_eq (h : es.Alike E es') :
    es'.outline.discriminatorProperty? = es.outline.discriminatorProperty? := by
  simp only [outline, SchemaNode.discriminatorProperty?]
  rw [h.field_eq (by decide)]

end Entries.Alike

namespace Components.Corresponds

variable {cs cs' : Components} {ρ : String → String → Prop} {E : Raw → Raw → Prop}
  {es es' : Entries}

/-- The raw schemas below correspond. -/
lemma similar_outline (h : cs.Corresponds cs' ρ E) (halike : es.Alike E es') :
    SchemaNode.Similar E es.outline es'.outline := by
  refine SchemaNode.similar_iff.mpr ⟨?_, ?_, ?_, ?_⟩
  · simp only [Entries.outline, List.forall₂_map_left_iff, List.forall₂_map_right_iff]
    exact halike.forall₂_properties.imp fun _ _ he => ⟨congrArg Raw.text he.1, he.2⟩
  · simp only [Entries.outline, h.isNull_eq halike.items]
    split
    · exact .nil
    · exact .cons halike.items .nil
  · simp only [Entries.outline, h.isMapping_eq halike.additional]
    split
    · exact .cons halike.additional .nil
    · exact .nil
  · intro kind
    have hmembers := halike.forall₂_composition kind
    cases kind <;> exact hmembers

/-- Corresponding schemas have corresponding schemas in line. -/
lemma forall₂_inlineSchemas (h : cs.Corresponds cs' ρ E) (hes : E (.dict es) (.dict es'))
    (halike : es.Alike E es') :
    List.Forall₂ (fun s s' => s.steps = s'.steps ∧ E (.dict s.entries) (.dict s'.entries)
        ∧ s.entries.Alike E s'.entries) es.inlineSchemas es'.inlineSchemas := by
  induction hsize : sizeOf es using Nat.strongRecOn generalizing es es' with
  | _ size ih =>
    rw [Entries.inlineSchemas_eq, Entries.inlineSchemas_eq]
    refine .cons ⟨rfl, hes, halike⟩ ?_
    have hchildren := Walk.forall₂_indexedChildren (h.similar_outline halike)
    apply forall₂_flatMap (forall₂_zipIdx hchildren 0)
    rintro ⟨⟨edge, index, raw⟩, i⟩ hmem ⟨⟨edge', index', raw'⟩, i'⟩ ⟨⟨rfl, rfl, hraw⟩, rfl⟩
    have hinline := h.rel_inline? hraw
    simp only [Entries.inlineBelow]
    generalize hbelow : raw.inline? = inline at hinline ⊢
    generalize raw'.inline? = inline' at hinline ⊢
    cases hinline with
    | none => exact .nil
    | @some below below' hpair =>
      have hlt : sizeOf below < size :=
        hsize ▸ Entries.sizeOf_lt_of_inline? (List.fst_mem_of_mem_zipIdx hmem) hbelow
      rw [List.forall₂_map_left_iff, List.forall₂_map_right_iff]
      refine (ih _ hlt hpair.1 hpair.2 rfl).imp ?_
      rintro s s' ⟨hsteps, hentries⟩
      exact ⟨congrArg ((edge, index) :: ·) hsteps, hentries⟩

/-! ### Departures -/

/-- A literal departs alike from corresponding raw schemas if it does so wherever both are governed:
nothing departs from a schema that leads nowhere. -/
lemma departures_eq_of_governing (h : cs.Corresponds cs' ρ E) {schema schema' raw : Raw}
    (hschema : E schema schema')
    (halike : ∀ es es', cs.governing? schema = some es → cs'.governing? schema' = some es' →
      es.Alike E es' → cs'.departures schema' raw = cs.departures schema raw) :
    cs'.departures schema' raw = cs.departures schema raw := by
  have hgoverning := h.rel_governing? hschema
  generalize hes : cs.governing? schema = governing at hgoverning
  generalize hes' : cs'.governing? schema' = governing' at hgoverning
  cases hgoverning with
  | none => rw [departures_eq_nil hes, departures_eq_nil hes']
  | some hpair => exact halike _ _ hes hes' hpair

mutual

/-- A literal departs alike from corresponding raw schemas. -/
lemma departures_eq (h : cs.Corresponds cs' ρ E) : ∀ (raw : Raw) {schema schema' : Raw},
    E schema schema' → cs'.departures schema' raw = cs.departures schema raw
  | .list items, schema, schema', hschema => by
    refine h.departures_eq_of_governing hschema fun es es' hes hes' halike => ?_
    rw [departures_list hes, departures_list hes', halike.field_eq (by decide),
      h.itemDepartures_eq items 0 halike.items]
  | .dict members, schema, schema', hschema => by
    refine h.departures_eq_of_governing hschema fun es es' hes hes' halike => ?_
    rw [departures_dict hes, departures_dict hes', halike.field_eq (by decide),
      h.memberDepartures_eq members halike]
  | .null, schema, schema', hschema | .bool _, schema, schema', hschema
  | .int _, schema, schema', hschema | .float _, schema, schema', hschema
  | .str _, schema, schema', hschema | .bytes _, schema, schema', hschema
  | .date _, schema, schema', hschema | .dateTime _, schema, schema', hschema
  | .set _, schema, schema', hschema | .pair _ _, schema, schema', hschema => by
    refine h.departures_eq_of_governing hschema fun es es' hes hes' halike => ?_
    rw [departures_plain (by simp) (by simp) hes, departures_plain (by simp) (by simp) hes',
      halike.field_eq (by decide), halike.field_eq (by decide), halike.nullable_eq]

lemma itemDepartures_eq (h : cs.Corresponds cs' ρ E) : ∀ (items : List Raw) {schema schema' : Raw}
    (index : Nat), E schema schema' →
    cs'.itemDepartures schema' index items = cs.itemDepartures schema index items
  | [], _, _, _, _ => by
    rw [itemDepartures, itemDepartures]
  | raw :: raws, _, _, index, hschema => by
    rw [itemDepartures, itemDepartures, h.departures_eq raw hschema,
      h.itemDepartures_eq raws (index + 1) hschema]

lemma memberDepartures_eq (h : cs.Corresponds cs' ρ E) : ∀ (members : List (Raw × Raw))
    {es es' : Entries}, es.Alike E es' →
    cs'.memberDepartures es' members = cs.memberDepartures es members
  | [], _, _, _ => by
    rw [memberDepartures, memberDepartures]
  | (key, raw) :: members, _, _, halike => by
    rw [memberDepartures, memberDepartures, h.departures_eq raw (halike.memberSchema key.text),
      h.memberDepartures_eq members halike]

end

/-! ### Findings -/

lemma sameMember (h : cs.Corresponds cs' ρ E) {raw raw' : Raw} (hraw : E raw raw') (index : Nat) :
    SameMember ρ ((cs.referredName? raw).getD s!"<inline #{index}>")
      ((cs'.referredName? raw').getD s!"<inline #{index}>") := by
  cases h.form hraw with
  | other hmapping =>
    rw [referredName?_eq_none hmapping, referredName?_eq_none hmapping]
    exact .inline index
  | reference hname hname' hnames =>
    rw [hname, hname']
    exact .component hnames
  | inline hplain hplain' =>
    rw [referredName?_inline hplain, referredName?_inline hplain']
    exact .inline index

/-- What governs corresponding raw schemas is written alike, or nothing does. -/
lemma governing_cases (h : cs.Corresponds cs' ρ E) {raw raw' : Raw} (hraw : E raw raw') :
    (cs.governing? raw).getD [] = [] ∧ (cs'.governing? raw').getD [] = []
      ∨ ((cs.governing? raw).getD []).Alike E ((cs'.governing? raw').getD []) := by
  have hgoverning := h.rel_governing? hraw
  generalize cs.governing? raw = governing at hgoverning ⊢
  generalize cs'.governing? raw' = governing' at hgoverning ⊢
  cases hgoverning with
  | none => exact .inl ⟨rfl, rfl⟩
  | some halike => exact .inr halike

/-- Whether a property is declared is the same for corresponding raw schemas. -/
lemma isSome_declared_eq (h : cs.Corresponds cs' ρ E) {raw raw' : Raw} (hraw : E raw raw')
    (property : String) :
    ((((cs'.governing? raw').getD []).mappingAt "properties").field? property).isSome
      = ((((cs.governing? raw).getD []).mappingAt "properties").field? property).isSome := by
  rcases h.governing_cases hraw with ⟨hnil, hnil'⟩ | halike
  · rw [hnil, hnil']
  · have hproperty := Entries.rel_field?_of_forall₂ halike.forall₂_properties property
    generalize Entries.field? (Entries.mappingAt _ "properties") property = found at hproperty ⊢
    generalize Entries.field? (Entries.mappingAt _ "properties") property = found' at hproperty ⊢
    cases hproperty <;> rfl

/-- Corresponding raw schemas require the same properties. -/
lemma required_governing_eq (h : cs.Corresponds cs' ρ E) {raw raw' : Raw} (hraw : E raw raw') :
    (Entries.outline ((cs'.governing? raw').getD [])).required
      = (Entries.outline ((cs.governing? raw).getD [])).required := by
  rcases h.governing_cases hraw with ⟨hnil, hnil'⟩ | halike
  · rw [hnil, hnil']
  · exact halike.required_eq

/-- The findings about members of compositions that correspond. -/
lemma echoes_memberFindings (h : cs.Corresponds cs' ρ E) {raw raw' : Raw} (hraw : E raw raw')
    (base base' : Pointer) (segments : List String) (rule property : String) (index : Nat) :
    List.Forall₂ (Finding.Echoes ρ base base')
      (cs.memberFindings rule (base.join segments) property index raw)
      (cs'.memberFindings rule (base'.join segments) property index raw') := by
  have hmember := h.sameMember hraw index
  simp only [memberFindings, h.isSome_declared_eq hraw, h.required_governing_eq hraw]
  apply List.rel_append
  · split
    · exact .nil
    · exact .cons (.missing hmember ..) .nil
  · split
    · exact .nil
    · exact .cons (.notRequired hmember ..) .nil

lemma echoes_compositionFindings (h : cs.Corresponds cs' ρ E) (halike : es.Alike E es')
    (kind : CompositionKind) (base base' : Pointer) (segments : List String) :
    List.Forall₂ (Finding.Echoes ρ base base')
      (cs.compositionFindings es kind (base.join segments))
      (cs'.compositionFindings es' kind (base'.join segments)) := by
  rw [compositionFindings, compositionFindings, halike.discriminatorProperty?_eq]
  split
  · have hmembers := (SchemaNode.similar_iff.mp (h.similar_outline halike)).2.2.2 kind
    apply forall₂_flatMap (forall₂_zipIdx hmembers 0)
    rintro ⟨raw, index⟩ - ⟨raw', _⟩ ⟨hraw, rfl⟩
    rw [Pointer.join_join, Pointer.join_join]
    exact h.echoes_memberFindings hraw ..
  · exact .nil

lemma echoes_literalFindings (h : cs.Corresponds cs' ρ E) (hes : E (.dict es) (.dict es'))
    (halike : es.Alike E es') (base base' : Pointer) (segments : List String) :
    List.Forall₂ (Finding.Echoes ρ base base') (cs.literalFindings es (base.join segments))
      (cs'.literalFindings es' (base'.join segments)) := by
  have hliterals : List.Forall₂ Eq es.rawLiterals es.rawLiterals := List.forall₂_eq_eq_eq ▸ rfl
  rw [literalFindings, literalFindings, halike.rawLiterals_eq]
  apply forall₂_flatMap hliterals
  rintro l - _ rfl
  rw [h.departures_eq l.2 hes, mismatchesAt, mismatchesAt, List.forall₂_map_left_iff,
    List.forall₂_map_right_iff, List.forall₂_same]
  intro path _
  rw [Pointer.through_eq_join (Pointer.isEmpty_join ..),
    Pointer.through_eq_join (Pointer.isEmpty_join ..)]
  simp only [Pointer.join_join]
  exact .mismatch _

/-- The findings about the schemas in line of corresponding schemas. -/
lemma echoes_inlineFindings (h : cs.Corresponds cs' ρ E) (hes : E (.dict es) (.dict es'))
    (hplain : es.field? "$ref" = none) (base base' : Pointer) :
    List.Forall₂ (Finding.Echoes ρ base base') (cs.inlineFindings es base)
      (cs'.inlineFindings es' base') := by
  apply forall₂_flatMap (h.forall₂_inlineSchemas hes (h.alike hes hplain))
  rintro s - s' ⟨hsteps, hentries, halike⟩
  have hsegments : s'.segments = s.segments := by rw [InlineSchema.segments, ← hsteps]; rfl
  rw [hsegments, schemaFindings, schemaFindings]
  refine List.rel_append (List.rel_append ?_ ?_) ?_
  · exact h.echoes_compositionFindings halike ..
  · exact h.echoes_compositionFindings halike ..
  · exact h.echoes_literalFindings hentries halike ..

end Components.Corresponds

end ApiLint
