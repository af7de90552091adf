import ApiLint.Proofs.Document.Aliases
import ApiLint.Proofs.Raw.Address

/-!
# Where the parts of a document stand

The mapping of the components stands at the end of its path, a component under its name, and a
schema in line at its address below the component. The segments under which a walk meets a schema
are its address, up to the first composition on the way: the members of a composition are met under
the segment of the keyword alone.
-/

namespace ApiLint

namespace Edge

/-- Whether a step leads to a member of a composition. -/
def isMember : Edge → Bool
  | .member _ => true
  | _ => false

lemma address_eq_segments {edge : Edge} (h : edge.isMember = false) (index : Nat) :
    edge.address index = edge.segments := by
  cases edge with
  | member kind => cases h
  | _ => rfl

/-- The segments of a step begin with a word. -/
lemma beginWithWord_segments (edge : Edge) : BeginWithWord edge.segments := by
  cases edge with
  | property name => exact ⟨_, _, rfl, by decide⟩
  | items => exact ⟨_, _, rfl, by decide⟩
  | additional => exact ⟨_, _, rfl, by decide⟩
  | member kind =>
    refine ⟨_, _, rfl, ?_⟩
    cases kind with
    | _ => decide

end Edge

namespace Entries

lemma field?_of_field_ne {es : Entries} {name : String} (h : es.field name ≠ .null) :
    es.field? name = some (es.field name) := by
  cases hfound : es.field? name with
  | none => simp [field, hfound] at h
  | some value => rw [field_of_field? hfound]

lemma field?_of_mem_mappingAt {es : Entries} {name : String} {e : Raw × Raw}
    (h : e ∈ es.mappingAt name) : es.field? name = some (.dict (es.mappingAt name)) := by
  cases hfield : es.field name with
  | dict entries =>
    have hne : es.field name ≠ .null := by simp [hfield]
    rw [field?_of_field_ne hne, mappingAt, hfield]
  | _ => simp [mappingAt, hfield] at h

lemma field?_of_mem_listAt {es : Entries} {name : String} {raw : Raw} (h : raw ∈ es.listAt name) :
    es.field? name = some (.list (es.listAt name)) := by
  cases hfield : es.field name with
  | list items =>
    have hne : es.field name ≠ .null := by simp [hfield]
    rw [field?_of_field_ne hne, listAt, hfield]
  | _ => simp [listAt, hfield] at h

/-! ### Children -/

/-- The members of a composition are those of a list under its keyword. -/
lemma composition_outline (es : Entries) (kind : CompositionKind) :
    es.outline.composition kind = es.listAt kind.keyword := by
  cases kind with
  | _ => rfl

/-- A member of a composition stands in the list of the composition. -/
lemma field?_of_member {es : Entries} {kind : CompositionKind} {index : Nat} {raw : Raw}
    (h : (.member kind, index, raw) ∈ Walk.indexedChildren es.outline) :
    es.field? kind.keyword = some (.list (es.listAt kind.keyword))
      ∧ (es.listAt kind.keyword)[index]? = some raw := by
  have hmember := Walk.mem_indexedChildren_iff.mp h
  dsimp only at hmember
  rw [composition_outline] at hmember
  exact ⟨field?_of_mem_listAt (List.mem_of_getElem? hmember), hmember⟩

lemma field?_of_items {es : Entries} {raw : Raw} (h : es.outline.items = some raw) :
    es.field? "items" = some raw := by
  dsimp only [outline] at h
  split at h
  · cases h
  · next hnull =>
    cases h
    exact field?_of_field_ne fun heq => hnull (by simp [heq, Raw.isNull])

lemma field?_of_additional {es : Entries} {raw : Raw} (h : es.outline.additional = some raw) :
    es.field? "additionalProperties" = some raw ∧ raw.isMapping = true := by
  dsimp only [outline] at h
  split at h
  · next hmapping =>
    cases h
    exact ⟨field?_of_field_ne fun heq => by simp [heq, Raw.isMapping] at hmapping, hmapping⟩
  · cases h

/-- A child stands at the address of its step. -/
lemma route_address {es : Entries} (hes : (Raw.dict es).isTextKeyed = true) {edge : Edge}
    {index : Nat} {raw : Raw} (h : (edge, index, raw) ∈ Walk.indexedChildren es.outline) :
    (Raw.dict es).Route (edge.address index) raw := by
  have hchild := Walk.mem_indexedChildren_iff.mp h
  cases edge with
  | property name =>
    obtain ⟨e, he, heq⟩ := List.mem_map.mp hchild.2
    cases heq
    have hmember := Raw.field?_text_of_mem (isTextKeyed_mappingAt hes "properties") he
    exact .field (field?_of_mem_mappingAt he) (.ofField hmember)
  | items => exact .ofField (field?_of_items hchild.2)
  | additional => exact .ofField (field?_of_additional hchild.2).1
  | member kind =>
    obtain ⟨hlist, hmember⟩ := field?_of_member h
    exact .field hlist (.ofItem hmember)

/-! ### Schemas in line -/

/-- A schema in line stands at its address. -/
lemma route_of_mem_inlineSchemas {es : Entries} (hes : (Raw.dict es).isTextKeyed = true)
    {s : InlineSchema} (hs : s ∈ es.inlineSchemas) :
    (Raw.dict es).Route s.address (.dict s.entries) := by
  refine inlineSchemas_induction (motive := fun es s => (Raw.dict es).isTextKeyed = true →
    (Raw.dict es).Route s.address (.dict s.entries)) (fun es _ => .here _) ?_ hs hes
  intro es edge index raw i below t hchild hraw _ ih hes
  have hmem := List.fst_mem_of_mem_zipIdx hchild
  have hkeyed := isTextKeyed_of_mem_outline hes (mem_outline_of_mem_indexedChildren hmem)
  obtain ⟨rfl, _⟩ := Raw.inline?_eq_some_iff.mp hraw
  rw [InlineSchema.address_below, InlineSchema.entries_below]
  exact (route_address hes hmem).append (ih hkeyed)

lemma at?_of_mem_inlineSchemas {es : Entries} (hes : (Raw.dict es).isTextKeyed = true)
    {s : InlineSchema} (hs : s ∈ es.inlineSchemas) :
    (Raw.dict es).at? s.address = some (.dict s.entries) :=
  (route_of_mem_inlineSchemas hes hs).at?_eq

/-- On the way to a schema in line lie schemas in line, each with the next step to one of its
children. -/
lemma exists_outer {es : Entries} {s : InlineSchema} (hs : s ∈ es.inlineSchemas)
    {before after : List (Edge × Nat)} {step : Edge × Nat}
    (hsteps : s.steps = before ++ step :: after) :
    ∃ outer ∈ es.inlineSchemas, outer.steps = before
      ∧ ∃ raw, (step.1, step.2, raw) ∈ Walk.indexedChildren outer.entries.outline := by
  -- The outer schema is found from the top: the steps before it are those of the schemas passed.
  refine inlineSchemas_induction (motive := fun es s =>
    ∀ before, s.steps = before ++ step :: after → ∃ outer ∈ es.inlineSchemas, outer.steps = before
      ∧ ∃ raw, (step.1, step.2, raw) ∈ Walk.indexedChildren outer.entries.outline)
    ?_ ?_ hs before hsteps
  · intro es before hsteps
    simp at hsteps
  · intro es edge index raw i below t hchild hraw ht ih before hsteps
    have hsteps : (edge, index) :: t.steps = before ++ step :: after := hsteps
    cases before with
    | nil =>
      obtain ⟨rfl, _⟩ := List.cons.inj hsteps
      exact ⟨⟨[], [], es⟩, mem_inlineSchemas_iff.mpr (.inl rfl), rfl, raw,
        List.fst_mem_of_mem_zipIdx hchild⟩
    | cons first before =>
      obtain ⟨rfl, hrest⟩ := List.cons.inj hsteps
      obtain ⟨outer, houter, rfl, hnext⟩ := ih before hrest
      exact ⟨outer.below i (edge, index), mem_inlineSchemas_iff.mpr
        (.inr ⟨edge, index, raw, i, below, outer, hchild, hraw, houter, rfl⟩), rfl, hnext⟩

/-! ### Literals -/

/-- A literal of a raw schema stands at the address that begins with its keyword, if the enumeration
is a list. -/
lemma route_of_mem_rawLiterals {es : Entries}
    (henum : ∀ raw, es.field? "enum" = some raw → ∃ items, raw = .list items)
    {l : List String × Raw} (hl : l ∈ es.rawLiterals) :
    (Raw.dict es).Route l.1 l.2 ∧ BeginWithWord l.1 := by
  simp only [rawLiterals, List.mem_append, List.mem_map, Option.mem_toList, List.mem_mapIdx] at hl
  rcases hl with (⟨raw, hraw, rfl⟩ | ⟨raw, hraw, rfl⟩) | ⟨i, hi, rfl⟩
  · exact ⟨.ofField hraw, _, _, rfl, by decide⟩
  · exact ⟨.ofField hraw, _, _, rfl, by decide⟩
  · refine ⟨?_, _, _, rfl, by decide⟩
    cases hfound : es.field? "enum" with
    | none =>
      have hnil : es.elementsAt "enum" = [] := by
        simp [elementsAt, field, hfound, Components.elementsOf, Raw.isVoid, Except.toOption]
      simp [hnil] at hi
    | some raw =>
      obtain ⟨items, rfl⟩ := henum raw hfound
      have hitems : es.elementsAt "enum" = items := by
        cases items with
        | nil =>
          simp [elementsAt, field, hfound, Components.elementsOf, Raw.isVoid, Except.toOption]
        | cons x xs =>
          simp [elementsAt, field, hfound, Components.elementsOf, Raw.isVoid, Raw.elements?,
            Except.toOption]
      simp only [hitems] at hi ⊢
      exact .field hfound (.ofItem (List.getElem?_eq_getElem hi))

lemma at?_of_mem_rawLiterals {es : Entries}
    (henum : ∀ raw, es.field? "enum" = some raw → ∃ items, raw = .list items)
    {l : List String × Raw} (hl : l ∈ es.rawLiterals) :
    (Raw.dict es).at? l.1 = some l.2 ∧ BeginWithWord l.1 :=
  (route_of_mem_rawLiterals henum hl).imp_left Raw.Route.at?_eq

end Entries

namespace InlineSchema

/-- Without a composition on the way, a walk meets a schema in line at its address. -/
lemma segments_eq_address {s : InlineSchema} (h : ∀ step ∈ s.steps, step.1.isMember = false) :
    s.segments = s.address :=
  List.flatMap_congr fun step hstep => (Edge.address_eq_segments (h step hstep) step.2).symm

end InlineSchema

namespace Components

variable {cs : Components} {document : Raw}

lemma entriesAt_nil {path keys : List String} {es : Entries}
    (h : entriesAt path keys (.dict []) = .ok es) : es = [] := by
  induction keys with
  | nil => cases h; rfl
  | cons key keys ih => exact ih h

/-- Entries stand at the end of the path under which they were found. -/
lemma route_of_entriesAt {path keys : List String} {raw : Raw} {es : Entries}
    (h : entriesAt path keys raw = .ok es) (hes : es ≠ []) : raw.Route keys (.dict es) := by
  induction keys generalizing raw with
  | nil =>
    cases raw with
    | dict entries => cases h; exact .here _
    | _ => cases h
  | cons key keys ih =>
    cases raw with
    | dict entries =>
      rw [entriesAt] at h
      split at h
      · exact absurd (entriesAt_nil h) hes
      · next hvoid =>
        have hne : Entries.field entries key ≠ .null := fun heq => hvoid (by rw [heq]; rfl)
        exact .field (Entries.field?_of_field_ne hne) (ih h)
    | _ =>
      cases h
      exact absurd rfl hes

/-- The components of a document stand at the end of the path of their version. -/
lemma route_schemasPath (hcs : ofDocument document = .ok cs) (hentries : cs.entries ≠ []) :
    document.Route cs.version.schemasPath (.dict cs.entries) := by
  obtain ⟨version, _, h⟩ := bind_eq_ok_iff.mp hcs
  obtain ⟨es, hes, h⟩ := bind_eq_ok_iff.mp h
  cases h
  exact route_of_entriesAt hes hentries

lemma at?_schemasPath (hcs : ofDocument document = .ok cs) (hentries : cs.entries ≠ []) :
    document.at? cs.version.schemasPath = some (.dict cs.entries) :=
  (route_schemasPath hcs hentries).at?_eq

/-- A component stands under its name. -/
lemma route_component (hdocument : document.isTextKeyed = true)
    (hcs : ofDocument document = .ok cs) {e : Raw × Raw} (he : e ∈ cs.entries) :
    document.Route (cs.version.schemasPath ++ [e.1.text]) e.2 :=
  (route_schemasPath hcs (List.ne_nil_of_mem he)).append
    (.ofField (Raw.field?_text_of_mem (isTextKeyed_of_ofDocument hdocument hcs) he))

lemma at?_component (hdocument : document.isTextKeyed = true) (hcs : ofDocument document = .ok cs)
    {e : Raw × Raw} (he : e ∈ cs.entries) :
    document.at? (cs.version.schemasPath ++ [e.1.text]) = some e.2 :=
  (route_component hdocument hcs he).at?_eq

end Components

end ApiLint
