import ApiLint.Yaml.Node
import ApiLint.Yaml.ScalarValue

/-!
# The values of nodes

A node becomes a raw value by its tag. Mappings take in the entries of the mappings that their merge
keys name, in front of their own. Values are made in rounds: the root first, then what stands
directly in it, and so on; of several faults the first in this order is found.
-/

namespace ApiLint.Yaml

/-- The value made of a node, and the first fault of each round: in the first round the node itself
is made, in the second what stands directly in it. -/
structure Built where
  value : Raw
  rounds : List (Option YamlFault)

/-- The first fault of each round of two makings, of which the first goes before the second. -/
def mergeRounds : List (Option YamlFault) → List (Option YamlFault) → List (Option YamlFault)
  | f :: fs, g :: gs => (f <|> g) :: mergeRounds fs gs
  | [], gs => gs
  | fs, [] => fs

namespace Built

/-- A value without faults. -/
def sound (value : Raw) : Built := ⟨value, []⟩

/-- A node that cannot be made. -/
def failed (fault : YamlFault) : Built := ⟨.null, [some fault]⟩

/-- A node that is of the wrong kind for its tag, as is found when its parts are looked for. -/
def hollow : Built := ⟨.null, [none, some .invalid]⟩

/-- A collection whose parts are made a round later, in the given order. -/
def ofParts (value : Raw) (parts : List (List (Option YamlFault))) : Built :=
  ⟨value, none :: parts.foldr mergeRounds []⟩

def ofExcept : Except YamlFault Raw → Built
  | .ok value => .sound value
  | .error fault => .failed fault

/-- A sequence of values. -/
def ofItems (items : List Built) : Built :=
  ofParts (.list (items.map (·.value))) (items.map (·.rounds))

/-- The making of an entry: a key that cannot be a key is a fault, found between key and value. -/
def entryRounds (e : Built × Built) : List (List (Option YamlFault)) :=
  [e.1.rounds, if e.1.value.isKey then [] else [some .invalid], e.2.rounds]

/-- A mapping of keys to values. -/
def ofEntries (es : List (Built × Built)) : Built :=
  ofParts (.dict (Entries.ofList (es.map fun e => (e.1.value, e.2.value)))) (es.flatMap entryRounds)

/-- The set of the keys of a mapping. -/
def ofKeys (es : List (Built × Built)) : Built :=
  ofParts (.set (Entries.distinctKeys (es.map fun e => e.1.value))) (es.flatMap entryRounds)

/-- The value, or the first fault of the first round that has one. -/
def result (b : Built) : Except YamlFault Raw :=
  match b.rounds.findSome? id with
  | some fault => .error fault
  | none => .ok b.value

end Built

/-- What is known of a node once its parts are made. -/
structure Made where
  tag : Tag
  /-- The text of the node taken as a scalar: of a mapping, that of its default value. -/
  text : Option String
  /-- The entries of a mapping as they are written. -/
  entries : Option (List (Built × Built))
  /-- The entries that the node adds as the value of a merge key. A mapping adds its entries with
  those that are merged into it, and a sequence those of its mappings, the first of which wins. -/
  source : Option (List (Built × Built))
  built : Built

namespace Made

/-- The node as a key of a mapping. The key of the default value is a text beside other keys. -/
def asKey (m : Made) : Built :=
  if m.tag = Tag.defaultValue then
    match m.text with
    | some text => .sound (.str text)
    | none => .failed .invalid
  else m.built

/-- The entries that the merge keys of a mapping add; none if one of them names nothing that can be
merged. -/
def mergedEntries : List (Made × Made) → Option (List (Built × Built))
  | [] => some []
  | (key, value) :: es =>
    if key.tag = Tag.merge then do return (← value.source) ++ (← mergedEntries es)
    else mergedEntries es

/-- The entries of a mapping that are not merged into it. -/
def ownEntries (es : List (Made × Made)) : List (Built × Built) :=
  (es.filter fun e => e.1.tag ≠ Tag.merge).map fun e => (e.1.asKey, e.2.built)

/-- The entries of a mapping, the merged ones first. -/
def allEntries (es : List (Made × Made)) : Option (List (Built × Built)) :=
  (mergedEntries es).map (· ++ ownEntries es)

/-- The entries that the mappings of a sequence add, those of the last one first. -/
def sourceOfItems : List Made → Option (List (Built × Built))
  | [] => some []
  | m :: ms => if m.entries.isSome then do return (← sourceOfItems ms) ++ (← m.source) else none

/-- An item of an ordered mapping: a mapping of one entry. -/
def pairOf (m : Made) : Raw × List (List (Option YamlFault)) :=
  match m.entries with
  | some [(key, value)] => (.pair key.value value.value, [key.rounds, value.rounds])
  | _ => (.null, [[some .invalid]])

/-- A node without parts. -/
def ofScalar (tag : Tag) (text : String) : Made :=
  let built := match tag with
    | .seq | .map | .set | .omap | .pairs => .hollow
    | tag => .ofExcept (ScalarValue.ofText tag text)
  ⟨tag, some text, none, none, built⟩

/-- A sequence of nodes. -/
def ofSequence (tag : Tag) (items : List Made) : Made :=
  let built := match tag with
    | .seq => .ofItems (items.map (·.built))
    | .omap | .pairs =>
      .ofParts (.list (items.map fun m => m.pairOf.1)) (items.flatMap fun m => m.pairOf.2)
    | .map | .set => .hollow
    | _ => .failed .invalid
  ⟨tag, none, none, sourceOfItems items, built⟩

/-- A mapping with a default value, taken as a scalar. -/
def defaultBuilt (tag : Tag) (text : String) : Built :=
  match tag with
  | .timestamp => .failed .timestampOfCollection
  | tag => .ofExcept (ScalarValue.ofText tag text)

/-- A mapping of nodes. -/
def ofMapping (tag : Tag) (es : List (Made × Made)) : Made :=
  let text := (es.find? fun e => e.1.tag = Tag.defaultValue).bind fun e => e.2.text
  let entries := allEntries es
  let built := match tag with
    | .map => (entries.map Built.ofEntries).getD .hollow
    | .set => (entries.map Built.ofKeys).getD .hollow
    | .seq | .omap | .pairs => .hollow
    | tag => (text.map (defaultBuilt tag)).getD (.failed .invalid)
  ⟨tag, text, some (es.map fun e => (e.1.built, e.2.built)), entries, built⟩

end Made

namespace Node

mutual

/-- Makes a node of its parts. -/
def made : Node → Made
  | .scalar tag text _ => .ofScalar tag text
  | .sequence tag items _ => .ofSequence tag (madeItems items)
  | .mapping tag entries _ => .ofMapping tag (madeEntries entries)

def madeItems : List Node → List Made
  | [] => []
  | n :: ns => made n :: madeItems ns

def madeEntries : List (Node × Node) → List (Made × Made)
  | [] => []
  | (key, value) :: es => (made key, made value) :: madeEntries es

end

/-- The value of a node. -/
def toRaw (n : Node) : Except YamlFault Raw := n.made.built.result

end Node

end ApiLint.Yaml
