import ApiLint.Document.Load
import ApiLint.Proofs.Graph.Trail
import ApiLint.Proofs.Raw.TextKeyed
import ApiLint.Proofs.Schema.Chain

/-!
# Schemas as a document writes them

The outline of a raw schema is the schema with raw schemas as its children: what the document writes
under the keywords, before references are followed and literals are converted. Below a component
stand the schemas in line, which are reached without following a reference; they are listed in the
order of a walk, each with the way that leads to it.
-/

namespace ApiLint

namespace Entries

/-- The entries of the mapping under a name. -/
def mappingAt (es : Entries) (name : String) : Entries :=
  match es.field name with
  | .dict entries => entries
  | _ => []

/-- The elements of the list under a name. -/
def listAt (es : Entries) (name : String) : List Raw :=
  match es.field name with
  | .list items => items
  | _ => []

/-- The elements of whatever has any under a name. -/
def elementsAt (es : Entries) (name : String) : List Raw :=
  (Components.elementsOf (es.field name)).toOption.getD []

/-- A raw schema with the raw schemas below it. -/
def outline (es : Entries) : SchemaNode Raw :=
  { (SchemaNode.blank : SchemaNode Raw) with
    type := es.field "type"
    format := es.field "format"
    nullable := !(es.field "nullable").isVoid || !(es.field "x-nullable").isVoid
    required := sortedNames ((es.elementsAt "required").map Raw.text)
    properties := (es.mappingAt "properties").map fun e => (e.1.text, e.2)
    items := if (es.field "items").isNull then none else some (es.field "items")
    additional :=
      if (es.field "additionalProperties").isMapping then some (es.field "additionalProperties")
      else none
    oneOf := es.listAt "oneOf"
    anyOf := es.listAt "anyOf"
    allOf := es.listAt "allOf"
    discriminator :=
      (Components.discriminatorOf Pointer.root (es.field "discriminator")).toOption.join }

/-- The raw literals of a raw schema with the segments of their places: the default, the example,
and the members of the enumeration, as far as they are written. -/
def rawLiterals (es : Entries) : List (List String × Raw) :=
  (es.field? "default").toList.map (fun raw => (["default"], raw))
    ++ (es.field? "example").toList.map (fun raw => (["example"], raw))
    ++ (es.elementsAt "enum").mapIdx fun i raw => (["enum", writtenNat i], raw)

end Entries

/-- The entries of a raw schema that is written in line. -/
def Raw.inline? : Raw → Option Entries
  | .dict es => if (Entries.field? es "$ref").isSome then none else some es
  | _ => none

lemma Raw.inline?_eq_some_iff {raw : Raw} {es : Entries} :
    raw.inline? = some es ↔ raw = .dict es ∧ Entries.field? es "$ref" = none := by
  cases raw with
  | dict entries =>
    rw [inline?, Option.ite_none_left_eq_some, Option.not_isSome_iff_eq_none]
    constructor
    · rintro ⟨hnone, heq⟩
      cases heq
      exact ⟨rfl, hnone⟩
    · rintro ⟨heq, hnone⟩
      cases heq
      exact ⟨hnone, rfl⟩
  | _ => simp [inline?]

/-- The segments of the place of a child in the document, given its index in its composition. -/
def Edge.address : Edge → Nat → List String
  | .member kind, index => [kind.keyword, writtenNat index]
  | edge, _ => edge.segments

/-- A schema in line below another one: the numbers of the children on the way to it, the steps of
that way, and its entries. -/
structure InlineSchema where
  path : List Nat
  steps : List (Edge × Nat)
  entries : Entries

namespace InlineSchema

/-- The segments of the pointer under which a walk meets the schema. -/
def segments (s : InlineSchema) : List String := s.steps.flatMap fun step => step.1.segments

/-- The segments of the place of the schema in the document. -/
def address (s : InlineSchema) : List String := s.steps.flatMap fun step => step.1.address step.2

/-- The schema as it is met from one step further above. -/
def below (i : Nat) (step : Edge × Nat) (s : InlineSchema) : InlineSchema :=
  ⟨i :: s.path, step :: s.steps, s.entries⟩

@[simp] lemma entries_below (i : Nat) (step : Edge × Nat) (s : InlineSchema) :
    (s.below i step).entries = s.entries := rfl

@[simp] lemma path_below (i : Nat) (step : Edge × Nat) (s : InlineSchema) :
    (s.below i step).path = i :: s.path := rfl

@[simp] lemma segments_below (i : Nat) (step : Edge × Nat) (s : InlineSchema) :
    (s.below i step).segments = step.1.segments ++ s.segments := by
  simp [segments, below]

@[simp] lemma address_below (i : Nat) (step : Edge × Nat) (s : InlineSchema) :
    (s.below i step).address = step.1.address step.2 ++ s.address := by
  simp [address, below]

end InlineSchema

/-! ### The children of an outline -/

namespace Entries

lemma sizeOf_lt_of_mem_mappingAt {es : Entries} {name : String} {e : Raw × Raw}
    (h : e ∈ es.mappingAt name) : sizeOf e.2 < sizeOf es := by
  unfold mappingAt at h
  split at h
  · next entries heq =>
    have hne : es.field name ≠ .null := by simp [heq]
    have hfield := sizeOf_field_lt hne
    have hmem : sizeOf e.2 < sizeOf entries := sizeOf_lt_of_mem (show (e.1, e.2) ∈ entries from h)
    simp only [heq, Raw.dict.sizeOf_spec] at hfield
    omega
  · cases h

lemma sizeOf_lt_of_mem_listAt {es : Entries} {name : String} {raw : Raw}
    (h : raw ∈ es.listAt name) : sizeOf raw < sizeOf es := by
  unfold listAt at h
  split at h
  · next items heq =>
    have hne : es.field name ≠ .null := by simp [heq]
    have hfield := sizeOf_field_lt hne
    have hmem := List.sizeOf_lt_of_mem h
    simp only [heq, Raw.list.sizeOf_spec] at hfield
    omega
  · cases h

/-- The raw schemas below a raw schema: in the mapping of the properties, alone under a keyword, or
in the list of a composition. -/
lemma mem_outline_cases {es : Entries} {e : Edge × Raw} (h : e ∈ es.outline.children) :
    (∃ x ∈ es.mappingAt "properties", x.2 = e.2)
      ∨ (∃ name, es.field name = e.2 ∧ e.2 ≠ .null) ∨ ∃ name, e.2 ∈ es.listAt name := by
  simp only [SchemaNode.children_eq_flatten_parts, SchemaNode.parts, outline, List.flatten_cons,
    List.flatten_nil, List.append_nil, List.mem_append, List.mem_map, Option.mem_toList] at h
  rcases h with ⟨x, ⟨y, hy, rfl⟩, rfl⟩ | ⟨raw, hraw, rfl⟩ | ⟨raw, hraw, rfl⟩ | ⟨raw, hraw, rfl⟩
    | ⟨raw, hraw, rfl⟩ | ⟨raw, hraw, rfl⟩
  · exact .inl ⟨y, hy, rfl⟩
  · split at hraw
    · cases hraw
    · next hnull =>
      cases hraw
      have hne : es.field "items" ≠ .null := by
        intro heq
        rw [heq] at hnull
        exact hnull rfl
      exact .inr (.inl ⟨"items", rfl, hne⟩)
  · split at hraw
    · next hmapping =>
      cases hraw
      have hne : es.field "additionalProperties" ≠ .null := by
        intro heq
        rw [heq] at hmapping
        cases hmapping
      exact .inr (.inl ⟨"additionalProperties", rfl, hne⟩)
    · cases hraw
  · exact .inr (.inr ⟨"oneOf", hraw⟩)
  · exact .inr (.inr ⟨"anyOf", hraw⟩)
  · exact .inr (.inr ⟨"allOf", hraw⟩)

/-- A raw schema is larger than the raw schemas below it. -/
lemma sizeOf_lt_of_mem_outline {es : Entries} {e : Edge × Raw} (h : e ∈ es.outline.children) :
    sizeOf e.2 < sizeOf es := by
  rcases mem_outline_cases h with ⟨x, hx, heq⟩ | ⟨name, heq, hne⟩ | ⟨name, hmem⟩
  · rw [← heq]
    exact sizeOf_lt_of_mem_mappingAt hx
  · rw [← heq] at hne ⊢
    exact sizeOf_field_lt hne
  · exact sizeOf_lt_of_mem_listAt hmem

lemma isTextKeyed_mappingAt {es : Entries} (h : (Raw.dict es).isTextKeyed = true) (name : String) :
    (Raw.dict (es.mappingAt name)).isTextKeyed = true := by
  unfold mappingAt
  split
  · next entries heq => exact heq ▸ Raw.isTextKeyed_field h name
  · rfl

lemma isTextKeyed_of_mem_listAt {es : Entries} (h : (Raw.dict es).isTextKeyed = true)
    {name : String} {raw : Raw} (hraw : raw ∈ es.listAt name) : raw.isTextKeyed = true := by
  unfold listAt at hraw
  split at hraw
  · next items heq =>
    have hitems := Raw.isTextKeyed_field h name
    rw [heq] at hitems
    exact Raw.isTextKeyed_of_mem_list hitems hraw
  · cases hraw

/-- Below a text-keyed raw schema stand text-keyed ones. -/
lemma isTextKeyed_of_mem_outline {es : Entries} (h : (Raw.dict es).isTextKeyed = true)
    {e : Edge × Raw} (he : e ∈ es.outline.children) : e.2.isTextKeyed = true := by
  rcases mem_outline_cases he with ⟨x, hx, heq⟩ | ⟨name, heq, _⟩ | ⟨name, hmem⟩
  · rw [← heq]
    exact (Raw.isTextKeyed_of_mem_dict (isTextKeyed_mappingAt h "properties") hx).2
  · rw [← heq]
    exact Raw.isTextKeyed_field h name
  · exact isTextKeyed_of_mem_listAt h hmem

lemma isTextKeyed_of_mem_elementsAt {es : Entries} (h : (Raw.dict es).isTextKeyed = true)
    {name : String} {raw : Raw} (hraw : raw ∈ es.elementsAt name) : raw.isTextKeyed = true := by
  have hfield := Raw.isTextKeyed_field h name
  unfold elementsAt Components.elementsOf at hraw
  split at hraw
  · cases hraw
  · cases hvalue : es.field name with
    | list items =>
      rw [hvalue] at hraw hfield
      exact Raw.isTextKeyed_of_mem_list hfield hraw
    | dict entries =>
      rw [hvalue] at hraw hfield
      obtain ⟨e, he, rfl⟩ := List.mem_map.mp hraw
      obtain ⟨key, hkey⟩ := (Raw.isTextKeyed_of_mem_dict hfield he).1
      rw [hkey]
      rfl
    | str s =>
      rw [hvalue] at hraw
      obtain ⟨c, _, rfl⟩ := List.mem_map.mp hraw
      rfl
    | bytes bs =>
      rw [hvalue] at hraw
      obtain ⟨b, _, rfl⟩ := List.mem_map.mp hraw
      rfl
    -- A pair or a set is never within a mapping whose keys are all texts.
    | pair k v => simp [hvalue, Raw.isTextKeyed] at hfield
    | set items => simp [hvalue, Raw.isTextKeyed] at hfield
    | _ =>
      rw [hvalue] at hraw
      cases hraw

/-- The literals of a text-keyed raw schema are text-keyed. -/
lemma isTextKeyed_of_mem_rawLiterals {es : Entries} (h : (Raw.dict es).isTextKeyed = true)
    {l : List String × Raw} (hl : l ∈ es.rawLiterals) : l.2.isTextKeyed = true := by
  simp only [rawLiterals, List.mem_append, List.mem_map, Option.mem_toList, List.mem_mapIdx] at hl
  rcases hl with (⟨raw, hraw, rfl⟩ | ⟨raw, hraw, rfl⟩) | ⟨i, hi, rfl⟩
  · exact Raw.isTextKeyed_field? h hraw
  · exact Raw.isTextKeyed_field? h hraw
  · exact isTextKeyed_of_mem_elementsAt h (List.getElem_mem hi)

lemma mem_outline_of_mem_indexedChildren {es : Entries} {edge : Edge} {index : Nat} {raw : Raw}
    (h : (edge, index, raw) ∈ Walk.indexedChildren es.outline) :
    (edge, raw) ∈ es.outline.children := by
  rw [← Walk.map_indexedChildren]
  exact List.mem_map.mpr ⟨_, h, rfl⟩

lemma sizeOf_lt_of_inline? {es below : Entries} {edge : Edge} {index : Nat} {raw : Raw}
    (h : (edge, index, raw) ∈ Walk.indexedChildren es.outline) (hraw : raw.inline? = some below) :
    sizeOf below < sizeOf es := by
  obtain ⟨rfl, _⟩ := Raw.inline?_eq_some_iff.mp hraw
  have hlt := sizeOf_lt_of_mem_outline (mem_outline_of_mem_indexedChildren h)
  simp only [Raw.dict.sizeOf_spec] at hlt
  omega

/-! ### Schemas in line -/

/-- The schemas in line of a raw schema, itself the first, in the order of a walk. -/
def inlineSchemas (es : Entries) : List InlineSchema :=
  ⟨[], [], es⟩ :: (Walk.indexedChildren es.outline).zipIdx.attach.flatMap fun child =>
    match _hraw : child.1.1.2.2.inline? with
    | some entries =>
      (inlineSchemas entries).map (InlineSchema.below child.1.2 (child.1.1.1, child.1.1.2.1))
    | none => []
termination_by sizeOf es
decreasing_by
  exact sizeOf_lt_of_inline? (List.fst_mem_of_mem_zipIdx child.2) _hraw

/-- The schemas in line below one child. -/
def inlineBelow (child : (Edge × Nat × Raw) × Nat) : List InlineSchema :=
  match child.1.2.2.inline? with
  | some entries => entries.inlineSchemas.map (.below child.2 (child.1.1, child.1.2.1))
  | none => []

lemma inlineSchemas_eq (es : Entries) :
    es.inlineSchemas
      = ⟨[], [], es⟩ :: (Walk.indexedChildren es.outline).zipIdx.flatMap inlineBelow := by
  rw [inlineSchemas]
  congr 1
  conv_rhs => rw [← List.attach_map_subtype_val (Walk.indexedChildren es.outline).zipIdx,
    List.flatMap_map]
  refine List.flatMap_congr fun child _ => ?_
  simp only [inlineBelow]
  split <;> simp_all

/-- A schema in line is the raw schema itself or in line of one of its children. -/
lemma mem_inlineSchemas_iff {es : Entries} {s : InlineSchema} :
    s ∈ es.inlineSchemas ↔ s = ⟨[], [], es⟩
      ∨ ∃ (edge : Edge) (index : Nat) (raw : Raw) (i : Nat) (below : Entries) (t : InlineSchema),
        ((edge, index, raw), i) ∈ (Walk.indexedChildren es.outline).zipIdx
        ∧ raw.inline? = some below ∧ t ∈ below.inlineSchemas ∧ s = t.below i (edge, index) := by
  rw [inlineSchemas_eq, List.mem_cons, List.mem_flatMap]
  refine or_congr_right ⟨?_, ?_⟩
  · rintro ⟨⟨⟨edge, index, raw⟩, i⟩, hchild, hs⟩
    rw [inlineBelow] at hs
    cases hraw : raw.inline? with
    | none => simp [hraw] at hs
    | some below =>
      simp only [hraw, List.mem_map] at hs
      obtain ⟨t, ht, rfl⟩ := hs
      exact ⟨edge, index, raw, i, below, t, hchild, hraw, ht, rfl⟩
  · rintro ⟨edge, index, raw, i, below, t, hchild, hraw, ht, rfl⟩
    refine ⟨_, hchild, ?_⟩
    simp only [inlineBelow, hraw]
    exact List.mem_map_of_mem ht

/-- What holds of every raw schema itself, and of a schema in line of a child if it holds below the
child, holds of all schemas in line. -/
lemma inlineSchemas_induction {motive : Entries → InlineSchema → Prop}
    (self : ∀ es, motive es ⟨[], [], es⟩)
    (step : ∀ es edge index raw i below t,
      ((edge, index, raw), i) ∈ (Walk.indexedChildren es.outline).zipIdx →
      raw.inline? = some below → t ∈ below.inlineSchemas → motive below t →
      motive es (t.below i (edge, index)))
    {es : Entries} {s : InlineSchema} (hs : s ∈ es.inlineSchemas) : motive es s := by
  induction hsize : sizeOf es using Nat.strongRecOn generalizing es s with
  | _ size ih =>
    rcases mem_inlineSchemas_iff.mp hs with
      rfl | ⟨edge, index, raw, i, below, t, hchild, hraw, ht, rfl⟩
    · exact self es
    · have hlt : sizeOf below < size :=
        hsize ▸ sizeOf_lt_of_inline? (List.fst_mem_of_mem_zipIdx hchild) hraw
      exact step es edge index raw i below t hchild hraw ht (ih _ hlt ht rfl)

end Entries

end ApiLint
