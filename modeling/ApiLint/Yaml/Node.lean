import ApiLint.Yaml.Fault
import ApiLint.Yaml.Tag
import ApiLint.Yaml.Token

/-!
# Nodes

The nodes of a document: scalars, sequences and mappings, each with its tag and the mark of its
beginning. They are read from the tokens by descent. A reference to an anchor gives the node that
the anchor stands before, which is complete by then.
-/

namespace ApiLint.Yaml

/-- A node of a document. -/
inductive Node
  | scalar (tag : Tag) (text : String) (start : Mark)
  | sequence (tag : Tag) (items : List Node) (start : Mark)
  | mapping (tag : Tag) (entries : List (Node × Node)) (start : Mark)

namespace Node

def tag : Node → Tag
  | .scalar tag .. | .sequence tag .. | .mapping tag .. => tag

def start : Node → Mark
  | .scalar _ _ start | .sequence _ _ start | .mapping _ _ start => start

/-- The node without a text at a mark. -/
def empty (mark : Mark) : Node := .scalar .null "" mark

instance : Inhabited Node := ⟨.empty default⟩

end Node

/-- What is left of the tokens, the fault behind the last of them, what handles stand for, and the
nodes of the anchors. -/
structure Descent where
  tokens : List PlacedToken
  fault : Option YamlFault
  handles : List (String × String) := []
  anchors : List (String × Node) := []

/-- A part of the descent. -/
abbrev Descend := StateT Descent (Except YamlFault)

namespace Descend

/-- The next token. Behind the last one there is only the fault. -/
def peek : Descend PlacedToken := do
  let d ← get
  match d.tokens with
  | t :: _ => return t
  | [] => throw (d.fault.getD .invalid)

/-- Takes the next token. -/
def take : Descend PlacedToken := do
  let t ← peek
  modify fun d => { d with tokens := d.tokens.tail }
  return t

/-- Whether the next token is one of some tokens. -/
def at? (tokens : List Token) : Descend Bool := do return tokens.contains (← peek).token

/-- Takes a token, which must be the given one. -/
def expect (token : Token) : Descend PlacedToken := do
  let t ← take
  if t.token == token then return t else throw .invalid

/-! ### Properties -/

/-- What the handles of every document stand for. -/
def standardHandles : List (String × String) := [("!", "!"), ("!!", Tag.standardHead)]

/-- The full name of a tag. -/
def tagName (handle : Option String) (suffix : String) : Descend String := do
  match handle with
  | none => return suffix
  | some handle =>
    match (← get).handles.lookup handle with
    | some head => return head ++ suffix
    | none => throw .invalid

/-- The anchor and the tag in front of a node, in either order, with the marks where they begin and
end. -/
structure Properties where
  anchor : Option String := none
  tag : Option String := none
  marks : Option (Mark × Mark) := none

/-- Adds a property whose marks are given. -/
def Properties.spread (p : Properties) (t : PlacedToken) : Option (Mark × Mark) :=
  some ((p.marks.map (·.1)).getD t.start, t.stop)

/-- Reads the properties in front of a node, each kind once and at most so many. -/
def properties : Nat → Properties → Descend Properties
  | 0, p => return p
  | n + 1, p => do
    let t ← peek
    match t.token, p.anchor, p.tag with
    | .anchor name, none, _ => do
      let _ ← take
      properties n { p with anchor := some name, marks := p.spread t }
    | .tag handle suffix, _, none => do
      let _ ← take
      properties n { p with tag := some (← tagName handle suffix), marks := p.spread t }
    | _, _, _ => return p

/-- Keeps a node for references, if an anchor is given. -/
def keep (anchor : Option String) (node : Node) : Descend Node := do
  match anchor with
  | none => return node
  | some name =>
    if (← get).anchors.any (·.1 == name) then throw .invalid
    modify fun d => { d with anchors := (name, node) :: d.anchors }
    return node

/-- The tag of a scalar. A lone exclamation mark leaves the choice to the form of the text. -/
def scalarTag (tag : Option String) (plain : Bool) (text : String) : Tag :=
  match tag with
  | none => if plain then Tag.ofPlain text else .str
  | some "!" => Tag.ofPlain text
  | some name => Tag.ofName name

/-- The tag of a collection. -/
def collectionTag (tag : Option String) (default : Tag) : Tag :=
  match tag with
  | none | some "!" => default
  | some name => Tag.ofName name

/-! ### Nodes -/

/-- Where a node may stand: only flow collections are read in a flow collection, and a sequence need
not be indented as the value of a key. -/
inductive Setting
  | flow | block | blockValue
  deriving DecidableEq, Repr

mutual

/-- Reads a node. -/
def node (setting : Setting) : Nat → Descend Node
  | 0 => throw .invalid
  | n + 1 => do
    let t ← peek
    if let .reference name := t.token then
      let _ ← take
      match (← get).anchors.lookup name with
      | some node => return node
      | none => throw .invalid
    else
      let p ← properties 2 {}
      let t ← peek
      let start := (p.marks.map (·.1)).getD t.start
      match t.token with
      | .scalar text plain => do
        let _ ← take
        keep p.anchor (.scalar (scalarTag p.tag plain text) text start)
      | .flowSequenceStart => do
        let _ ← take
        keep p.anchor (.sequence (collectionTag p.tag .seq) (← flowItems n true) start)
      | .flowMappingStart => do
        let _ ← take
        keep p.anchor (.mapping (collectionTag p.tag .map) (← flowEntries n true) start)
      | token =>
        if token == .blockEntry && setting == .blockValue then
          keep p.anchor (.sequence (collectionTag p.tag .seq) (← flatItems n) start)
        else if token == .blockSequenceStart && setting != .flow then do
          let _ ← take
          keep p.anchor (.sequence (collectionTag p.tag .seq) (← blockItems n) start)
        else if token == .blockMappingStart && setting != .flow then do
          let _ ← take
          keep p.anchor (.mapping (collectionTag p.tag .map) (← blockEntries n) start)
        else if p.anchor.isSome || p.tag.isSome then
          keep p.anchor (.scalar (if p.tag.isNone then .null else scalarTag p.tag false "") "" start)
        else throw .invalid

/-- Reads a node, unless one of some tokens follows, which leaves an empty node at a mark. -/
def nodeUnless (setting : Setting) (ends : List Token) (mark : Mark) : Nat → Descend Node
  | 0 => throw .invalid
  | n + 1 => do if ← at? ends then return .empty mark else node setting n

/-- Reads the items of an indented sequence, up to its end. -/
def blockItems : Nat → Descend (List Node)
  | 0 => throw .invalid
  | n + 1 => do
    let t ← take
    match t.token with
    | .blockEntry => do
      let item ← nodeUnless .block [.blockEntry, .blockEnd] t.stop n
      return item :: (← blockItems n)
    | .blockEnd => return []
    | _ => throw .invalid

/-- Reads the items of a sequence that is not indented. -/
def flatItems : Nat → Descend (List Node)
  | 0 => throw .invalid
  | n + 1 => do
    if ← at? [.blockEntry] then
      let t ← take
      let item ← nodeUnless .block [.blockEntry, .key, .value, .blockEnd] t.stop n
      return item :: (← flatItems n)
    else return []

/-- Reads the entries of a block mapping, up to its end. -/
def blockEntries : Nat → Descend (List (Node × Node))
  | 0 => throw .invalid
  | n + 1 => do
    if ← at? [.blockEnd] then
      let _ ← take
      return []
    else
      let t ← expect .key
      let ends := [Token.key, .value, .blockEnd]
      let key ← nodeUnless .blockValue ends t.stop n
      let value ← entryValue .blockValue ends n
      return (key, value) :: (← blockEntries n)

/-- Reads the value behind a key; without an indicator it is empty. -/
def entryValue (setting : Setting) (ends : List Token) : Nat → Descend Node
  | 0 => throw .invalid
  | n + 1 => do
    if ← at? [.value] then
      let t ← take
      nodeUnless setting ends t.stop n
    else return .empty (← peek).start

/-- Reads the items of a flow sequence, up to its end. A key makes an item a mapping of one
entry. -/
def flowItems : Nat → Bool → Descend (List Node)
  | 0, _ => throw .invalid
  | n + 1, first => do
    if ← at? [.flowSequenceEnd] then
      let _ ← take
      return []
    else
      if !first then let _ ← expect .flowEntry
      if ← at? [.key] then
        let t ← take
        let key ← nodeUnless .flow [.value, .flowEntry, .flowSequenceEnd] t.stop n
        let value ← entryValue .flow [.flowEntry, .flowSequenceEnd] n
        return .mapping .map [(key, value)] t.start :: (← flowItems n false)
      else if ← at? [.flowSequenceEnd] then
        let _ ← take
        return []
      else
        let item ← node .flow n
        return item :: (← flowItems n false)

/-- Reads the entries of a flow mapping, up to its end. A node without an indicator is a key with an
empty value. -/
def flowEntries : Nat → Bool → Descend (List (Node × Node))
  | 0, _ => throw .invalid
  | n + 1, first => do
    if ← at? [.flowMappingEnd] then
      let _ ← take
      return []
    else
      if !first then let _ ← expect .flowEntry
      if ← at? [.key] then
        let t ← take
        let key ← nodeUnless .flow [.value, .flowEntry, .flowMappingEnd] t.stop n
        let value ← entryValue .flow [.flowEntry, .flowMappingEnd] n
        return (key, value) :: (← flowEntries n false)
      else if ← at? [.flowMappingEnd] then
        let _ ← take
        return []
      else
        let key ← node .flow n
        let value := Node.empty (← peek).start
        return (key, value) :: (← flowEntries n false)

end

/-! ### Documents -/

/-- Takes the directives in front of a document: at most one version, and each handle once. -/
def directives : List PlacedToken → Bool → Descend Unit
  | ⟨.directive directive, _, _⟩ :: rest, hasVersion => do
    let _ ← take
    match directive with
    | .version major =>
      if hasVersion || major != 1 then throw .invalid
      directives rest true
    | .tagHandle handle head =>
      if (← get).handles.any (·.1 == handle) then throw .invalid
      modify fun d => { d with handles := (handle, head) :: d.handles }
      directives rest hasVersion
    | .reserved => directives rest hasVersion
  | _, _ => return ()

/-- Takes the marks that end a document. -/
def documentEnds : List PlacedToken → Descend Unit
  | ⟨.documentEnd, _, _⟩ :: rest => do
    let _ ← take
    documentEnds rest
  | _ => return ()

/-- A depth that no descent exceeds: between two tokens it goes down twice at most. -/
def depthBound (tokens : List PlacedToken) : Nat := 4 * tokens.length + 4

/-- Reads the node of a document that begins without a mark, or behind directives and a mark. -/
def content (tokens : List PlacedToken) : Descend Node := do
  let depth := depthBound tokens
  let t ← peek
  let explicit := match t.token with
    | .directive _ | .documentStart => true
    | _ => false
  if !explicit then
    modify fun d => { d with handles := standardHandles }
    node .block depth
  else
    directives tokens false
    modify fun d => { d with handles := d.handles ++ standardHandles }
    let _ ← expect .documentStart
    let t ← peek
    match t.token with
    | .directive _ | .documentStart | .documentEnd | .streamEnd => return .empty t.start
    | _ => node .block depth

/-- Reads the only document of a text, if there is one. -/
def document (tokens : List PlacedToken) : Descend (Option Node) := do
  if ← at? [.streamEnd] then return none
  let root ← content tokens
  documentEnds (← get).tokens
  let _ ← expect .streamEnd
  return some root

end Descend

/-- The root of the only document among tokens that may end in a fault. -/
def Node.ofTokens (tokens : List PlacedToken) (fault : Option YamlFault) :
    Except YamlFault (Option Node) :=
  (Descend.document tokens).run' ⟨tokens, fault, [], []⟩

end ApiLint.Yaml
