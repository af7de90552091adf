import Mathlib.Data.Finset.Card
import Mathlib.Data.Finset.SDiff
import Mathlib.Data.Finset.Insert
import Mathlib.Data.List.Lex
import ApiLint.Walk

/-!
# Trails through a graph

A path below a child is a list of numbers: each says which child of the node reached so far comes
next. Its trail lists the nodes on it with the pointers under which a walk meets them. Paths are
ordered as lists are, so a path stands before the paths that go on from it, and these before the
paths through later children.
-/

namespace ApiLint

namespace Graph

/-- Every child of a node is a schema, and every literal is a value. What is inside a literal plays
no part. -/
structure IsWellFormed (g : Graph) : Prop where
  child : ∀ node ∈ g.nodes, ∀ e ∈ node.children, ∃ found, g.resolve e.2 = .ok found
  literal : ∀ node ∈ g.nodes, ∀ l ∈ node.literals, l.2.foreign? = none

/-- The keys of the nodes of a graph. -/
def keys (g : Graph) : Finset NodeKey := (g.nodes.toList.mapIdx keyOf).toFinset

lemma resolve_eq_ok_iff {g : Graph} {child : Child} {place : Nat} {node : Node} :
    g.resolve child = .ok (place, node) ↔ child = .node place ∧ g.nodes[place]? = some node := by
  cases child with
  | other raw => simp [resolve]
  | node p =>
    simp only [resolve, Child.node.injEq]
    constructor
    · intro h
      split at h
      · next found hfound => cases h; exact ⟨rfl, hfound⟩
      · cases h
    · rintro ⟨rfl, h⟩
      rw [h]

lemma nonSchema?_eq_none_iff {g : Graph} {child : Child} :
    g.nonSchema? child = none ↔ ∃ found, g.resolve child = .ok found := by
  cases h : g.resolve child <;> simp [nonSchema?, h]

instance (g : Graph) : Decidable g.IsWellFormed :=
  decidable_of_iff
    (∀ node ∈ g.nodes.toList, (∀ e ∈ node.children, (g.nonSchema? e.2).isNone = true)
      ∧ ∀ l ∈ node.literals, l.2.foreign?.isNone = true) <| by
    simp only [Option.isNone_iff_eq_none, nonSchema?_eq_none_iff, Array.mem_toList_iff]
    exact ⟨fun h => ⟨fun node hnode => (h node hnode).1, fun node hnode => (h node hnode).2⟩,
      fun h node hnode => ⟨h.child node hnode, h.literal node hnode⟩⟩

@[simp] lemma resolve_node {g : Graph} {place : Nat} {node : Node}
    (h : g.nodes[place]? = some node) : g.resolve (.node place) = .ok (place, node) :=
  resolve_eq_ok_iff.mpr ⟨rfl, h⟩

lemma keyOf_mem_keys {g : Graph} {place : Nat} {node : Node} (h : g.nodes[place]? = some node) :
    keyOf place node ∈ g.keys := by
  simp only [keys, List.mem_toFinset, List.mem_mapIdx]
  obtain ⟨hlt, rfl⟩ := Array.getElem?_eq_some_iff.mp h
  exact ⟨place, by simpa using hlt, by simp⟩

lemma card_keys_le (g : Graph) : g.keys.card ≤ g.nodes.size := by
  refine (List.toFinset_card_le _).trans ?_
  simp

end Graph

namespace Walk

/-- A node that a walk comes to, with its place and the pointer under which it is met. -/
structure Stop where
  pointer : Pointer
  place : Nat
  node : Node

namespace Stop

/-- The key of the node. -/
def key (stop : Stop) : NodeKey := Graph.keyOf stop.place stop.node

/-- The stop at a child. -/
def at? (g : Graph) (pointer : Pointer) (child : Child) : Option Stop :=
  match g.resolve child with
  | .ok (place, node) => some ⟨pointer, place, node⟩
  | .error _ => none

lemma at?_eq_some_iff {g : Graph} {pointer : Pointer} {child : Child} {stop : Stop} :
    at? g pointer child = some stop
      ↔ stop.pointer = pointer ∧ g.resolve child = .ok (stop.place, stop.node) := by
  obtain ⟨p, place, node⟩ := stop
  simp only [at?]
  split
  · next found heq => simp [heq, eq_comm]
  · next raw heq => simp [heq]

lemma at?_of_resolve {g : Graph} {pointer : Pointer} {child : Child} {place : Nat} {node : Node}
    (h : g.resolve child = .ok (place, node)) :
    at? g pointer child = some ⟨pointer, place, node⟩ :=
  at?_eq_some_iff.mpr ⟨rfl, h⟩

lemma resolve_of_at? {g : Graph} {pointer : Pointer} {child : Child} {stop : Stop}
    (h : at? g pointer child = some stop) : g.resolve child = .ok (stop.place, stop.node) :=
  (at?_eq_some_iff.mp h).2

lemma getElem?_of_at? {g : Graph} {pointer : Pointer} {child : Child} {stop : Stop}
    (h : at? g pointer child = some stop) : g.nodes[stop.place]? = some stop.node :=
  (Graph.resolve_eq_ok_iff.mp (resolve_of_at? h)).2

end Stop

/-- The stops along a path below a child, from the child itself to the end of the path. -/
def trail (g : Graph) (pointer : Pointer) (child : Child) : List Nat → Option (List Stop)
  | [] => (Stop.at? g pointer child).map fun stop => [stop]
  | i :: path => do
    let stop ← Stop.at? g pointer child
    let (edge, next) ← stop.node.children[i]?
    let rest ← trail g (pointer.join edge.segments) next path
    return stop :: rest

/-- The stop at the end of a path. -/
def arrival? (g : Graph) (pointer : Pointer) (child : Child) (path : List Nat) : Option Stop :=
  (trail g pointer child path).bind List.getLast?

/-- A path that a walk takes from its root: no key is on it twice, and a walk that stops at
references meets no component below the root. -/
def IsTaken (walker : Walker) (g : Graph) (root : Child) (path : List Nat) : Prop :=
  ∃ stops, trail g walker.base root path = some stops ∧ (stops.map Stop.key).Nodup
    ∧ (walker.stopAtReferences = true → ∀ stop ∈ stops.tail, stop.node.name? = none)

lemma trail_nil_eq_some_iff {g : Graph} {pointer : Pointer} {child : Child} {stops : List Stop} :
    trail g pointer child [] = some stops
      ↔ ∃ stop, Stop.at? g pointer child = some stop ∧ stops = [stop] := by
  simp [trail, eq_comm]

lemma trail_cons_eq_some_iff {g : Graph} {pointer : Pointer} {child : Child} {i : Nat}
    {path : List Nat} {stops : List Stop} :
    trail g pointer child (i :: path) = some stops
      ↔ ∃ stop edge next rest, Stop.at? g pointer child = some stop
        ∧ stop.node.children[i]? = some (edge, next)
        ∧ trail g (pointer.join edge.segments) next path = some rest
        ∧ stops = stop :: rest := by
  simp only [trail, Option.bind_eq_bind, Option.bind_eq_some_iff, Option.pure_def,
    Option.some.injEq, Prod.exists]
  constructor
  · rintro ⟨stop, hstop, edge, next, hnext, rest, hrest, rfl⟩
    exact ⟨stop, edge, next, rest, hstop, hnext, hrest, rfl⟩
  · rintro ⟨stop, edge, next, rest, hstop, hnext, hrest, rfl⟩
    exact ⟨stop, hstop, edge, next, hnext, rest, hrest, rfl⟩

/-- A trail starts at the child. -/
lemma exists_cons_of_trail {g : Graph} {pointer : Pointer} {child : Child} {path : List Nat}
    {stops : List Stop} (h : trail g pointer child path = some stops) :
    ∃ stop rest, Stop.at? g pointer child = some stop ∧ stops = stop :: rest := by
  cases path with
  | nil =>
    obtain ⟨stop, hstop, rfl⟩ := trail_nil_eq_some_iff.mp h
    exact ⟨stop, [], hstop, rfl⟩
  | cons i path =>
    obtain ⟨stop, _, _, rest, hstop, _, _, rfl⟩ := trail_cons_eq_some_iff.mp h
    exact ⟨stop, rest, hstop, rfl⟩

/-! ### Children with their indices -/

/-- Forgetting the indices leaves the children. -/
lemma map_indexedChildren {σ : Type} (node : SchemaNode σ) :
    (indexedChildren node).map (fun e => (e.1, e.2.2)) = node.children := by
  have hmembers : ∀ kind : CompositionKind,
      ((node.composition kind).mapIdx fun i child => (Edge.member kind, i, child)).map
          (fun e => (e.1, e.2.2))
        = (node.composition kind).map fun child => (Edge.member kind, child) := by
    intro kind
    rw [List.mapIdx_eq_zipIdx_map, List.map_map]
    conv_rhs => rw [← List.zipIdx_map_fst 0 (node.composition kind), List.map_map]
    rfl
  simp only [indexedChildren, SchemaNode.children, List.map_append, List.map_map,
    List.map_flatMap, hmembers]
  rfl

/-- The child that a step leads to, by the keyword of the step. -/
lemma mem_indexedChildren_iff {σ : Type} {node : SchemaNode σ} {edge : Edge} {index : Nat}
    {child : σ} :
    (edge, index, child) ∈ indexedChildren node ↔ match edge with
      | .property name => index = 0 ∧ (name, child) ∈ node.properties
      | .items => index = 0 ∧ node.items = some child
      | .additional => index = 0 ∧ node.additional = some child
      | .member kind => (node.composition kind)[index]? = some child := by
  simp only [indexedChildren, List.mem_append, List.mem_map, List.mem_flatMap, List.mem_mapIdx,
    Option.mem_toList, Prod.exists, Prod.mk.injEq, List.getElem?_eq_some_iff]
  cases edge with
  | property name => simp [and_comm, eq_comm]
  | items => simp [and_comm, eq_comm]
  | additional => simp [and_comm, eq_comm]
  | member kind =>
    constructor
    · simp only [reduceCtorEq, false_and, and_false, exists_false, or_false, false_or]
      rintro ⟨kind', _, i, hi, heq, rfl, rfl⟩
      cases heq
      exact ⟨hi, rfl⟩
    · rintro ⟨hi, rfl⟩
      refine .inr ⟨kind, ?_, index, hi, rfl, rfl, rfl⟩
      cases kind with
      | _ => decide

end Walk

end ApiLint
