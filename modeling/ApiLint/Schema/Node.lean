import ApiLint.Literal.Conversion

/-!
# Schema nodes

One schema: its type and format, the schemas below it, its literals, and what ties it to others. The
type of the children is a parameter: in a graph they are places of other nodes, in a loaded document
they are schemas written in line or names of components.
-/

namespace ApiLint

/-- The ways to compose a schema of others, in the order in which they are walked. -/
inductive CompositionKind
  | oneOf | anyOf | allOf
  deriving DecidableEq, Repr

namespace CompositionKind

def all : List CompositionKind := [.oneOf, .anyOf, .allOf]

/-- The word for the composition in a document. -/
def keyword : CompositionKind → String
  | .oneOf => "oneOf"
  | .anyOf => "anyOf"
  | .allOf => "allOf"

/-- The name of the member list on a node. -/
def listName : CompositionKind → String
  | .oneOf => "one_of"
  | .anyOf => "any_of"
  | .allOf => "all_of"

end CompositionKind

/-- The property whose value selects a member of a composition. The mapping of values to references
is kept for reports only. -/
structure Discriminator where
  property : String
  mapping : List (String × String) := []
  deriving DecidableEq, Repr

/-- The names listed once each, in ascending order. -/
def sortedNames (names : List String) : List String :=
  (names.eraseDups).mergeSort (fun s t => decide (s ≤ t))

/-- A schema with children of type `σ`. A type or format that is absent is null. -/
structure SchemaNode (σ : Type) where
  type : Raw
  format : Raw
  nullable : Bool
  /-- The names of the required properties, sorted and without repetitions. -/
  required : List String
  properties : List (String × σ)
  items : Option σ
  additional : Option σ
  oneOf : List σ
  anyOf : List σ
  allOf : List σ
  discriminator : Option Discriminator
  defaultValue : Option Literal
  exampleValue : Option Literal
  enumValues : List Literal
  /-- The name of the component that the node stands for. -/
  reference : Option String

/-- The schema that accepts everything and has nothing below it. -/
def SchemaNode.blank {σ : Type} : SchemaNode σ :=
  ⟨.null, .null, false, [], [], none, none, [], [], [], none, none, none, [], none⟩

instance {σ : Type} : Inhabited (SchemaNode σ) := ⟨.blank⟩

/-- The step from a node to a child. -/
inductive Edge
  | property (name : String)
  | items
  | additional
  | member (kind : CompositionKind)
  deriving DecidableEq, Repr

namespace Edge

/-- The pointer segments of a step. Members of a composition share the segment of its keyword. -/
def segments : Edge → List String
  | .property name => ["properties", name]
  | .items => ["items"]
  | .additional => ["additionalProperties"]
  | .member kind => [kind.keyword]

end Edge

namespace SchemaNode

variable {σ : Type}

/-- The schema of a property. -/
def property? (node : SchemaNode σ) (name : String) : Option σ := Fields.find? node.properties name

/-- The members of a composition. -/
def composition (node : SchemaNode σ) : CompositionKind → List σ
  | .oneOf => node.oneOf
  | .anyOf => node.anyOf
  | .allOf => node.allOf

/-- All children in the order of a walk: properties, items, additional properties, and the members
of `oneOf`, `anyOf` and `allOf`. -/
def children (node : SchemaNode σ) : List (Edge × σ) :=
  node.properties.map (fun (name, child) => (.property name, child))
    ++ node.items.toList.map (fun child => (.items, child))
    ++ node.additional.toList.map (fun child => (.additional, child))
    ++ CompositionKind.all.flatMap fun kind =>
      (node.composition kind).map fun child => (.member kind, child)

/-- All literals with the segments of their places: default, example, and the enumeration. -/
def literals (node : SchemaNode σ) : List (List String × Literal) :=
  node.defaultValue.toList.map (fun value => (["default"], value))
    ++ node.exampleValue.toList.map (fun value => (["example"], value))
    ++ node.enumValues.mapIdx fun i value => (["enum", writtenNat i], value)

/-- The property named by the discriminator. -/
def discriminatorProperty? (node : SchemaNode σ) : Option String :=
  node.discriminator.map (·.property)

/-- The name of the component, unless there is none or it is empty. -/
def name? (node : SchemaNode σ) : Option String := node.reference.filter fun name => !name.isEmpty

/-- The name of a node in messages: the component, or that it is inline and of which type. A type
may be any raw value, and then it may have no text. -/
def describe (node : SchemaNode σ) : Except NumberError String :=
  match node.name? with
  | some name => .ok name
  | none =>
    (if node.type.isVoid then .ok "schema" else node.type.writtenText).map fun type =>
      "<inline " ++ type ++ ">"

end SchemaNode

end ApiLint
