import ApiLint.Location
import ApiLint.Yaml.Node

/-!
# The places of nodes

The source map of a text gives the line and the column where each node begins. The place of a node
is the path of keys and indices that leads to it; where two nodes have one place, the later one
counts. A key that is a collection takes part in a path by a description of its nodes.
-/

namespace ApiLint.Yaml

/-- The full name of a tag. -/
def Tag.name (tag : Tag) : String :=
  match tag with
  | .other name => name
  | _ => Tag.standardHead ++ ((Tag.known.find? fun k => k.2 == tag).map (·.1)).getD ""

namespace Node

/-- A description of a node of some kind by its tag and what it holds. -/
def described (kind : String) (tag : Tag) (value : String) : String :=
  kind ++ "Node(tag=" ++ Text.quoted tag.name ++ ", value=" ++ value ++ ")"

mutual

/-- The description of a node. -/
def describe : Node → String
  | .scalar tag text _ => described "Scalar" tag (Text.quoted text)
  | .sequence tag items _ =>
    described "Sequence" tag ("[" ++ commaSeparated (describeAll items) ++ "]")
  | .mapping tag entries _ =>
    described "Mapping" tag ("[" ++ commaSeparated (describeEntries entries) ++ "]")

def describeAll : List Node → List String
  | [] => []
  | n :: ns => describe n :: describeAll ns

def describeEntries : List (Node × Node) → List String
  | [] => []
  | (key, value) :: es =>
    ("(" ++ describe key ++ ", " ++ describe value ++ ")") :: describeEntries es

end

/-- The segment of a key. -/
def segment : Node → String
  | .scalar _ text _ => text
  | .sequence _ items _ => "[" ++ commaSeparated (describeAll items) ++ "]"
  | .mapping _ entries _ => "[" ++ commaSeparated (describeEntries entries) ++ "]"

/-- The position of a mark, counted from one. -/
def position (mark : Mark) : SourcePosition := ⟨some (mark.line + 1), some (mark.column + 1)⟩

mutual

/-- Adds the place of a node, and those of what is in it, to the places before. -/
def addPlaces (place : String) : Node → SourceMap → SourceMap
  | .scalar _ _ start, m => Fields.insert m place (position start)
  | .sequence _ items start, m => addItemPlaces place 0 items (Fields.insert m place (position start))
  | .mapping _ entries start, m =>
    addEntryPlaces place entries (Fields.insert m place (position start))

/-- Adds the places of items, the first of which has the given index. -/
def addItemPlaces (place : String) (index : Nat) : List Node → SourceMap → SourceMap
  | [], m => m
  | n :: ns, m =>
    addItemPlaces place (index + 1) ns (addPlaces (Pointer.push place (writtenNat index)) n m)

/-- Adds the places of the values of entries. -/
def addEntryPlaces (place : String) : List (Node × Node) → SourceMap → SourceMap
  | [], m => m
  | (key, value) :: es, m =>
    addEntryPlaces place es (addPlaces (Pointer.push place key.segment) value m)

end

/-- The source map of a document with the given root. -/
def sourceMap (n : Node) : SourceMap := n.addPlaces "" []

end Node

end ApiLint.Yaml
