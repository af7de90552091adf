import ApiLint.Document.Load
import ApiLint.Schema.Graph

/-!
# The graph of a document

The components of a document stand in the first places of its graph, in order of declaration, and
the schemas in line stand behind them. A reference becomes the place of its component, so every
component is one node, however often it is referred to.
-/

namespace ApiLint

namespace Schema

mutual

/-- Gives a schema a place behind the nodes placed before, together with what is below it. The names
of the components are listed in the order of their places. -/
def lay (names : List String) : Schema → Array Node → Child × Array Node
  | .component name, nodes => (.node (names.idxOf name), nodes)
  | .inline node, nodes =>
    let (node, nodes) := layNode names node nodes
    (.node nodes.size, nodes.push node)

/-- Gives places to what is below a node, and ties the node to it. -/
def layNode (names : List String) : SchemaNode Schema → Array Node → Node × Array Node
  | ⟨type, format, nullable, required, properties, items, additional, oneOf, anyOf, allOf,
      discriminator, defaultValue, exampleValue, enumValues, reference⟩, nodes =>
    let (properties, nodes) := layProperties names properties nodes
    let (items, nodes) := layOption names items nodes
    let (additional, nodes) := layOption names additional nodes
    let (oneOf, nodes) := layList names oneOf nodes
    let (anyOf, nodes) := layList names anyOf nodes
    let (allOf, nodes) := layList names allOf nodes
    (⟨type, format, nullable, required, properties, items, additional, oneOf, anyOf, allOf,
      discriminator, defaultValue, exampleValue, enumValues, reference⟩, nodes)

def layProperties (names : List String) :
    List (String × Schema) → Array Node → List (String × Child) × Array Node
  | [], nodes => ([], nodes)
  | (name, schema) :: rest, nodes =>
    let (child, nodes) := lay names schema nodes
    let (children, nodes) := layProperties names rest nodes
    ((name, child) :: children, nodes)

def layOption (names : List String) : Option Schema → Array Node → Option Child × Array Node
  | none, nodes => (none, nodes)
  | some schema, nodes =>
    let (child, nodes) := lay names schema nodes
    (some child, nodes)

def layList (names : List String) : List Schema → Array Node → List Child × Array Node
  | [], nodes => ([], nodes)
  | schema :: rest, nodes =>
    let (child, nodes) := lay names schema nodes
    let (children, nodes) := layList names rest nodes
    (child :: children, nodes)

end

end Schema

namespace LoadedDocument

/-- The names of the components, in the order of their places in the graph. -/
def names (d : LoadedDocument) : List String := Fields.names d.components

/-- Puts components into the places that are kept for them, the first of which is given. -/
def layComponents (names : List String) (place : Nat) :
    List (String × Component) → Array Node → Array Node
  | [], nodes => nodes
  | (_, component) :: rest, nodes =>
    let (node, nodes) := Schema.layNode names component.node nodes
    layComponents names (place + 1) rest (nodes.setIfInBounds place node)

/-- The graph of the document. -/
def graph (d : LoadedDocument) : Graph :=
  ⟨layComponents d.names 0 d.components (Array.replicate d.components.length .blank)⟩

/-- The place of a component in the graph. -/
def placeOf (d : LoadedDocument) (name : String) : Nat := d.names.idxOf name

end LoadedDocument

end ApiLint
