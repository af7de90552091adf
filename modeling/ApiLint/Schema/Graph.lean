import ApiLint.Schema.Node

/-!
# Schema graphs

The nodes of a graph stand in an array, and a child is the place of a node, so that nodes may be
shared and cycles are possible. A host may put any raw value where a child belongs; neither such a
value nor a place outside the array is a schema.
-/

namespace ApiLint

/-- What stands in the place of a child. -/
inductive Child
  | node (place : Nat)
  | other (raw : Raw)
  deriving Inhabited

/-- A node of a graph. -/
abbrev Node := SchemaNode Child

/-- A finite graph of schemas. -/
structure Graph where
  nodes : Array Node
  deriving Inhabited

/-- What makes a node the same node on a path: the component that it stands for, and without one
its place. -/
inductive NodeKey
  | component (name : String)
  | place (place : Nat)
  deriving DecidableEq, Repr

namespace Graph

/-- The node in the place of a child, with its place; without one the raw value that stands there
instead. -/
def resolve (g : Graph) : Child → Except Raw (Nat × Node)
  | .node place =>
    match g.nodes[place]? with
    | some node => .ok (place, node)
    | none => .error .null
  | .other raw => .error raw

/-- The raw value in the place of a child that is no schema. -/
def nonSchema? (g : Graph) (child : Child) : Option Raw :=
  match g.resolve child with
  | .ok _ => none
  | .error raw => some raw

/-- The key of a node at a place. -/
def keyOf (place : Nat) (node : Node) : NodeKey :=
  match node.name? with
  | some name => .component name
  | none => .place place

end Graph

end ApiLint
