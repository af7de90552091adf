import ApiLint.Proofs.Matching.Divergences

/-!
# Relaxing a schema

A schema that asks for less accepts what it accepted before: it may lose its type, become nullable,
or leave elements or members without a schema. It may govern many parts of one literal, at several
depths, and every part is matched as before, or with fewer mismatches.
-/

namespace ApiLint

/-- A way to ask for less. -/
inductive Relaxation
  | untyped | nullable | withoutItems | withoutAdditional
  deriving DecidableEq, Repr

namespace SchemaNode

variable {σ : Type}

/-- The node that asks for less. -/
def relax (node : SchemaNode σ) : Relaxation → SchemaNode σ
  | .untyped => { node with type := .null }
  | .nullable => { node with nullable := true }
  | .withoutItems => { node with items := none }
  | .withoutAdditional => { node with additional := none }

/-- What a literal is asked for at a second node, it is asked for at the first one. -/
structure Loosens (node looser : SchemaNode σ) : Prop where
  type : looser.type = node.type ∨ looser.type = .null
  format : looser.format = node.format
  nullable : node.nullable = true → looser.nullable = true
  properties : looser.properties = node.properties
  items : looser.items = node.items ∨ looser.items = none
  additional : looser.additional = node.additional ∨ looser.additional = none

lemma Loosens.refl (node : SchemaNode σ) : node.Loosens node :=
  ⟨.inl rfl, rfl, id, rfl, .inl rfl, .inl rfl⟩

lemma loosens_relax (node : SchemaNode σ) (relaxation : Relaxation) :
    node.Loosens (node.relax relaxation) := by
  cases relaxation with
  | untyped => exact { Loosens.refl node with type := .inr rfl }
  | nullable => exact { Loosens.refl node with nullable := fun _ => rfl }
  | withoutItems => exact { Loosens.refl node with items := .inr rfl }
  | withoutAdditional => exact { Loosens.refl node with additional := .inr rfl }

end SchemaNode

namespace Graph

/-- The graph in which the node at a place asks for less. -/
def relax (g : Graph) (place : Nat) (relaxation : Relaxation) : Graph :=
  ⟨g.nodes.modify place fun node => node.relax relaxation⟩

/-- A graph with a looser node in the place of every node. -/
def Loosens (g looser : Graph) : Prop :=
  ∀ child place node, g.resolve child = .ok (place, node) →
    ∃ node', looser.resolve child = .ok (place, node') ∧ node.Loosens node'

lemma loosens_relax (g : Graph) (place : Nat) (relaxation : Relaxation) :
    g.Loosens (g.relax place relaxation) := by
  intro child other node h
  obtain ⟨rfl, hnode⟩ := resolve_eq_ok_iff.mp h
  have hrelaxed : (g.relax place relaxation).nodes[other]?
      = some (if place = other then node.relax relaxation else node) := by
    rw [relax, Array.getElem?_modify, hnode]
    split <;> rfl
  refine ⟨_, resolve_node hrelaxed, ?_⟩
  split
  · exact node.loosens_relax relaxation
  · exact .refl node

end Graph

namespace Matching

variable {g looser : Graph} {node node' : Node}

/-! ### What a looser node accepts -/

lemma memberSchema?_of_loosens (h : node.Loosens node') (name : String) :
    memberSchema? node' name = memberSchema? node name ∨ memberSchema? node' name = none := by
  rw [memberSchema?, memberSchema?, SchemaNode.property?, SchemaNode.property?, h.properties]
  cases Fields.find? node.properties name with
  | some child => exact .inl rfl
  | none => exact h.additional

lemma accepts_of_loosens (h : node.Loosens node') {kind : ScalarKind}
    (haccepts : (node.type.isNull || acceptsOutright node kind || fitsScalar node kind) = true) :
    (node'.type.isNull || acceptsOutright node' kind || fitsScalar node' kind) = true := by
  rcases h.type with htype | htype
  · have hnullable := h.nullable
    simp only [acceptsOutright, fitsScalar, htype, h.format, Bool.or_eq_true,
      Bool.and_eq_true] at haccepts ⊢
    tauto
  · simp [htype, Raw.isNull]

/-! ### Mismatches at a looser node -/

/-- An outcome without a fault after which another one has no fault and nothing new. -/
def Shrinks (outcome outcome' : Except Fault (List Finding)) : Prop :=
  ∀ fs, outcome = .ok fs → ∃ fs', outcome' = .ok fs' ∧ fs'.Sublist fs

lemma shrinks_nil (outcome : Except Fault (List Finding)) : Shrinks outcome (.ok []) :=
  fun fs _ => ⟨[], rfl, fs.nil_sublist⟩

lemma Shrinks.refl (outcome : Except Fault (List Finding)) : Shrinks outcome outcome :=
  fun fs h => ⟨fs, h, .refl fs⟩

lemma Shrinks.append {first first' second second' : Except Fault (List Finding)}
    (h : Shrinks first first') (h' : Shrinks second second') :
    Shrinks
      (do
        let here ← first
        let others ← second
        return here ++ others)
      (do
        let here ← first'
        let others ← second'
        return here ++ others) := by
  intro fs hfs
  obtain ⟨here, hfirst, hfs⟩ := bind_eq_ok_iff.mp hfs
  obtain ⟨others, hsecond, hfs⟩ := bind_eq_ok_iff.mp hfs
  cases hfs
  obtain ⟨here', hfirst', hhere⟩ := h here hfirst
  obtain ⟨others', hsecond', hothers⟩ := h' others hsecond
  exact ⟨here' ++ others', by rw [hfirst', hsecond']; rfl, hhere.append hothers⟩

/-- A literal that has no new mismatches in a looser graph. -/
def ShrinksIn (g looser : Graph) (value : Literal) : Prop :=
  ∀ child pointer,
    Shrinks (mismatches g child pointer value) (mismatches looser child pointer value)

lemma shrinks_itemMismatches {items : List Literal} (h : ∀ item ∈ items, ShrinksIn g looser item)
    (child : Child) (pointer : Pointer) (index : Nat) :
    Shrinks (itemMismatches g child pointer index items)
      (itemMismatches looser child pointer index items) := by
  induction items generalizing index with
  | nil => exact shrinks_nil _
  | cons item rest ih =>
    obtain ⟨hitem, hrest⟩ := List.forall_mem_cons.mp h
    rw [itemMismatches, itemMismatches]
    exact (hitem child _).append (ih hrest (index + 1))

lemma shrinks_memberMismatches (hnode : node.Loosens node') {members : List (String × Literal)}
    (h : ∀ m ∈ members, ShrinksIn g looser m.2) (pointer : Pointer) :
    Shrinks (memberMismatches g node pointer members)
      (memberMismatches looser node' pointer members) := by
  induction members with
  | nil => exact shrinks_nil _
  | cons m rest ih =>
    obtain ⟨hm, hrest⟩ := List.forall_mem_cons.mp h
    rw [memberMismatches, memberMismatches]
    rcases memberSchema?_of_loosens hnode m.1 with hschema | hschema
    · rw [hschema]
      split
      · exact (hm _ _).append (ih hrest)
      · exact (shrinks_nil _).append (ih hrest)
    · rw [hschema]
      split
      · exact (shrinks_nil _).append (ih hrest)
      · exact (shrinks_nil _).append (ih hrest)

lemma shrinks_elementMismatches (hnode : node.Loosens node') {items : List Literal}
    (h : ∀ item ∈ items, ShrinksIn g looser item) (pointer : Pointer) :
    Shrinks (elementMismatches g node pointer items)
      (elementMismatches looser node' pointer items) := by
  rw [elementMismatches, elementMismatches]
  rcases hnode.items with hitems | hitems
  · rw [hitems]
    split
    · exact shrinks_itemMismatches h _ pointer 0
    · exact .refl _
  · rw [hitems]
    exact shrinks_nil _

/-- A node that keeps its type looks at the parts of a literal as before, and one without a type
finds nothing. -/
lemma Shrinks.underType (hnode : node.Loosens node') {parts parts' : Except Fault (List Finding)}
    (h : Shrinks parts parts') (type : String) (pointer : Pointer) :
    Shrinks (underType node type pointer parts) (underType node' type pointer parts') := by
  rw [Matching.underType, Matching.underType]
  rcases hnode.type with htype | htype
  · rw [htype]
    split
    · exact .refl _
    · split
      · exact h
      · exact .refl _
  · rw [htype]
    exact shrinks_nil _

/-- What is matched without a fault against a node is matched against a looser one. -/
lemma shrinks_of_resolve (hloosens : g.Loosens looser) {value : Literal}
    (h : ∀ child place node node', g.resolve child = .ok (place, node) →
      looser.resolve child = .ok (place, node') → node.Loosens node' → ∀ pointer,
        Shrinks (mismatches g child pointer value) (mismatches looser child pointer value)) :
    ShrinksIn g looser value := by
  intro child pointer
  cases hresolve : g.resolve child with
  | error raw =>
    intro fs hfs
    rw [mismatches_of_resolve_eq_error hresolve] at hfs
    cases hfs
  | ok found =>
    obtain ⟨place, node⟩ := found
    obtain ⟨node', hresolve', hnode⟩ := hloosens child place node hresolve
    exact h child place node node' hresolve hresolve' hnode pointer

/-- In a looser graph every literal has the mismatches that it had, or fewer. -/
lemma shrinksIn_of_loosens (hloosens : g.Loosens looser) (value : Literal) :
    ShrinksIn g looser value := by
  induction value using Literal.nested_induction with
  | scalar kind payload =>
    apply shrinks_of_resolve hloosens
    intro child place node node' h h' hnode pointer
    rw [mismatches_scalar h, mismatches_scalar h']
    split
    · next haccepts =>
      rw [if_pos (accepts_of_loosens hnode haccepts)]
      exact .refl _
    · split
      · exact shrinks_nil _
      · exact .refl _
  | array items ih =>
    apply shrinks_of_resolve hloosens
    intro child place node node' h h' hnode pointer
    rw [mismatches_array h, mismatches_array h']
    exact .underType hnode (shrinks_elementMismatches hnode ih pointer) "array" pointer
  | object members ih =>
    apply shrinks_of_resolve hloosens
    intro child place node node' h h' hnode pointer
    rw [mismatches_object h, mismatches_object h']
    exact .underType hnode (shrinks_memberMismatches hnode ih pointer) "object" pointer
  | foreign raw =>
    apply shrinks_of_resolve hloosens
    intro child place node node' h h' hnode pointer
    rw [mismatches_foreign h, mismatches_foreign h']
    rcases hnode.type with htype | htype
    · rw [htype]
      exact .refl _
    · rw [htype]
      exact shrinks_nil _

/-- A node of a well-formed graph that asks for less adds no mismatch, whatever parts of a value it
governs: the mismatches that are left are a part of those before, in the same order. So a value that
is a match stays one. -/
theorem relaxing_adds_no_mismatch (hg : g.IsWellFormed) (place : Nat) (relaxation : Relaxation)
    {start : Child} (hstart : ∃ found, g.resolve start = .ok found) {value : Literal}
    (hvalue : value.IsValue) (pointer : Pointer) :
    ∃ fs fs', mismatches g start pointer value = .ok fs
      ∧ mismatches (g.relax place relaxation) start pointer value = .ok fs' ∧ fs'.Sublist fs
      ∧ (isMatch g start value = .ok true →
        isMatch (g.relax place relaxation) start value = .ok true) := by
  have hshrinks := shrinksIn_of_loosens (g.loosens_relax place relaxation) value
  obtain ⟨fs, hfs, -⟩ := matches_of_isValue hg hvalue start pointer hstart
  obtain ⟨fs', hfs', hsublist⟩ := hshrinks start pointer fs hfs
  refine ⟨fs, fs', hfs, hfs', hsublist, fun hmatch => ?_⟩
  rw [isMatch_eq_ok_true_iff] at hmatch ⊢
  obtain ⟨gs, hgs, hnone⟩ := hshrinks start Pointer.root [] hmatch
  rw [hgs, List.sublist_nil.mp hnone]

/-- The node governs two members inside each other; without a schema for them, the mismatch in the
inner one is gone. -/
theorem relaxing_adds_no_mismatch_looped :
    Graph.looped.IsWellFormed ∧ (∃ found, Graph.looped.resolve (.node 0) = .ok found)
    ∧ Literal.knotted.IsValue
    ∧ ∃ fs fs', mismatches .looped (.node 0) "#" .knotted = .ok fs
      ∧ mismatches (Graph.looped.relax 0 .withoutAdditional) (.node 0) "#" .knotted = .ok fs'
      ∧ fs'.Sublist fs ∧ fs.map Finding.pointer = ["#/a~1b/1", "#/a~1b/2", "#/b/a~1b"]
      ∧ fs'.map Finding.pointer = ["#/a~1b/1", "#/a~1b/2"] := by
  have hg : Graph.looped.IsWellFormed := by decide
  have hstart : ∃ found, Graph.looped.resolve (.node 0) = .ok found := ⟨_, rfl⟩
  have hvalue : Literal.knotted.IsValue := by simp [Literal.knotted]
  obtain ⟨fs, fs', hfs, hfs', hsublist, -⟩ :=
    relaxing_adds_no_mismatch hg 0 .withoutAdditional hstart hvalue "#"
  refine ⟨hg, hstart, hvalue, fs, fs', hfs, hfs', hsublist, ?_, ?_⟩
  · cases hfs
    decide +kernel
  · cases hfs'
    decide +kernel

end Matching

end ApiLint
