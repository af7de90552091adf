import ApiLint.Proofs.Graph.Trail

/-!
# Defects of nodes

A node has slots for its children and slots for its literals, in the order in which a walk looks at
them. A child is bad if it is no schema, and a literal is bad if a raw value stands in its place;
what is inside a literal or below a child plays no part. A node with a bad slot is malformed, and
the first of its bad slots is where a walk finds its first defect.
-/

namespace ApiLint

/-- A defect is said to be one of the graph, unless it is a value in the place of a literal that has
no text. -/
lemma GraphDefect.faultAt_cases (defect : GraphDefect) (pointer : Pointer) :
    (defect.faultAt pointer = .invalidGraph ⟨defect, some pointer⟩
        ∧ ∀ raw, defect = .literal raw → raw.isWritable = true)
      ∨ ∃ raw, defect = .literal raw ∧ raw.isWritable = false
        ∧ defect.faultAt pointer = .number .tooLongToWrite := by
  cases defect with
  | literal raw => cases h : raw.isWritable <;> simp [faultAt, isWritable, h]
  | _ => exact .inl ⟨rfl, nofun⟩

namespace Walk

/-- What stands in a slot of a node. -/
inductive Slot
  | child (schema : Child)
  | literal (value : Literal)

/-- Whether there is neither a schema nor a value in a slot. -/
def Slot.isBad (g : Graph) : Slot → Bool
  | .child schema => (g.nonSchema? schema).isSome
  | .literal value => value.foreign?.isSome

/-- The slots of a node with the segments of their places: those of the children, the properties
first, and then those of the default, the example and the members of the enumeration. -/
def slots (node : Node) : List (List String × Slot) :=
  node.children.map (fun (edge, child) => (edge.segments, .child child))
    ++ node.literals.map fun (segments, value) => (segments, .literal value)

/-- The segments of the first bad slot of a node. -/
def firstBad? (g : Graph) (node : Node) : Option (List String) :=
  ((slots node).find? fun slot => slot.2.isBad g).map Prod.fst

/-- Whether a node has a bad slot. -/
def IsMalformed (g : Graph) (node : Node) : Prop := ∃ slot ∈ slots node, slot.2.isBad g = true

instance (g : Graph) (node : Node) : Decidable (IsMalformed g node) :=
  inferInstanceAs (Decidable (∃ slot ∈ slots node, slot.2.isBad g = true))

variable {g : Graph} {node : Node}

lemma isMalformed_iff : IsMalformed g node ↔ ∃ segments, firstBad? g node = some segments := by
  simp only [firstBad?, Option.map_eq_some_iff, IsMalformed]
  constructor
  · rintro ⟨slot, hslot, hbad⟩
    cases hfirst : (slots node).find? fun slot => slot.2.isBad g with
    | none => exact absurd hbad (List.find?_eq_none.mp hfirst slot hslot)
    | some first => exact ⟨first.1, first, rfl, rfl⟩
  · rintro ⟨_, first, hfirst, -⟩
    have hbad := List.find?_some hfirst
    exact ⟨first, List.mem_of_find?_eq_some hfirst, hbad⟩

lemma not_isMalformed_iff : ¬IsMalformed g node ↔ firstBad? g node = none := by
  simp [isMalformed_iff, Option.eq_none_iff_forall_ne_some]

lemma slots_of_mem_children {e : Edge × Child} (h : e ∈ node.children) :
    (e.1.segments, .child e.2) ∈ slots node :=
  List.mem_append_left _ (List.mem_map.mpr ⟨e, h, rfl⟩)

/-- The children of a node that is not malformed are schemas. -/
lemma exists_of_mem_children (hgood : ¬IsMalformed g node) {e : Edge × Child}
    (h : e ∈ node.children) : ∃ found, g.resolve e.2 = .ok found := by
  rw [← Graph.nonSchema?_eq_none_iff, ← Option.not_isSome_iff_eq_none]
  exact fun hbad => hgood ⟨_, slots_of_mem_children h, hbad⟩

lemma not_isMalformed (hg : g.IsWellFormed) (hnode : node ∈ g.nodes) : ¬IsMalformed g node := by
  rintro ⟨slot, hslot, hbad⟩
  rcases List.mem_append.mp hslot with hchild | hliteral
  · obtain ⟨e, he, rfl⟩ := List.mem_map.mp hchild
    obtain ⟨found, hfound⟩ := hg.child node hnode e he
    simp [Slot.isBad, Graph.nonSchema?, hfound] at hbad
  · obtain ⟨l, hl, rfl⟩ := List.mem_map.mp hliteral
    simp [Slot.isBad, hg.literal node hnode l hl] at hbad

/-- The first element to which something belongs is the first one that passes a test, if the test
says whether something belongs to an element. -/
lemma map_findSome?_eq_find? {α β γ δ : Type} {xs : List α} {ys : List β} {f : α → Option γ}
    {p : β → Bool} {key : γ → δ} {label : β → δ}
    (h : List.Forall₂ (fun x y => (f x).map key = if p y then some (label y) else none) xs ys) :
    (xs.findSome? f).map key = (ys.find? p).map label := by
  induction h with
  | nil => rfl
  | @cons x y xs ys head _ ih =>
    rw [List.findSome?_cons, List.find?_cons]
    cases hx : f x with
    | none =>
      cases hy : p y with
      | false => exact ih
      | true => simp [hx, hy] at head
    | some found =>
      cases hy : p y with
      | false => simp [hx, hy] at head
      | true => simpa [hx, hy] using head

/-- The first child with a defect stands in the first bad slot for a child. -/
lemma findSome?_childDefect? :
    ((indexedChildren node).findSome? fun (edge, index, child) =>
      (childDefect? g edge index child).map fun defect => (edge.segments, defect)).map Prod.fst
      = ((node.children.map fun (edge, child) => (edge.segments, Slot.child child)).find?
        fun slot => slot.2.isBad g).map Prod.fst := by
  apply map_findSome?_eq_find?
  rw [← map_indexedChildren, List.map_map, List.forall₂_map_right_iff, List.forall₂_same]
  rintro ⟨edge, index, child⟩ -
  cases h : g.nonSchema? child <;> simp [childDefect?, Slot.isBad, h]

/-- The first literal that is none stands in the first bad slot for a literal. -/
lemma findSome?_foreign? :
    (node.literals.findSome? fun (segments, value) =>
      value.foreign?.map fun raw => (segments, GraphDefect.literal raw)).map Prod.fst
      = ((node.literals.map fun (segments, value) => (segments, Slot.literal value)).find?
        fun slot => slot.2.isBad g).map Prod.fst := by
  apply map_findSome?_eq_find?
  rw [List.forall₂_map_right_iff, List.forall₂_same]
  rintro ⟨segments, value⟩ -
  cases h : value.foreign? <;> simp [Slot.isBad, h]

/-- The first of all defects of a node is that of its first bad slot. -/
lemma head?_defects : (defects g node).head?.map Prod.fst = firstBad? g node := by
  simp only [defects, List.head?_append, List.head?_filterMap, Option.map_or,
    findSome?_childDefect?, findSome?_foreign? (g := g), firstBad?, slots, List.find?_append]

/-- Only the root of a walk is called no schema as the root. -/
lemma ne_root_of_mem_defects {found : List String × GraphDefect} (h : found ∈ defects g node)
    (kind : String) : found.2 ≠ .root kind := by
  simp only [defects, childDefect?, List.mem_append, List.mem_filterMap, Option.map_eq_some_iff] at h
  rcases h with ⟨⟨edge, index, child⟩, -, defect, ⟨raw, -, rfl⟩, rfl⟩ | ⟨l, -, raw, -, rfl⟩
  · cases edge <;> simp
  · simp

lemma defects_eq_nil_iff : defects g node = [] ↔ ¬IsMalformed g node := by
  rw [not_isMalformed_iff, ← head?_defects, Option.map_eq_none_iff, List.head?_eq_none_iff]

end Walk

end ApiLint
