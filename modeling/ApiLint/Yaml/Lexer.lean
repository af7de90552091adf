import ApiLint.Files.Utf8
import ApiLint.Yaml.Scalar
import ApiLint.Yaml.Token

/-!
# The tokens of a text

A lexer reads one token after another. In a block it compares the column of every token with the
indentation, which opens and closes collections. A token may turn out to be a key only when a colon
is met later on its line; the lexer remembers where such tokens stand, and puts the tokens that
announce a key in front of them then.
-/

namespace ApiLint.Yaml

/-- A token that a colon later on makes a key: the count of tokens in front of it, its place, and
whether it can be nothing but a key. -/
structure SimpleKey where
  tokensBefore : Nat
  required : Bool
  index : Nat
  mark : Mark
  deriving Repr

/-- The state of reading a text. -/
structure Lexer where
  cursor : Cursor
  /-- The count of flow collections that are open. -/
  flowDepth : Nat := 0
  /-- The column of the innermost block collection, and of those around it. -/
  indent : Int := -1
  outerIndents : List Int := []
  /-- Whether the next token may be a key without an indicator. -/
  allowsKey : Bool := true
  /-- The possible keys, at most one for each depth of flow collections. -/
  keys : List (Nat × SimpleKey) := []
  tokens : Array PlacedToken := #[]

namespace Lexer

def inFlow (l : Lexer) : Bool := l.flowDepth != 0

/-- Adds a token between two marks. -/
def push (l : Lexer) (token : Token) (start stop : Mark) : Lexer :=
  { l with tokens := l.tokens.push ⟨token, start, stop⟩ }

/-- Adds a token of no width at the cursor. -/
def pushHere (l : Lexer) (token : Token) : Lexer := l.push token l.cursor.mark l.cursor.mark

/-- Adds a token that ends at another cursor, and goes there. -/
def pushTo (l : Lexer) (token : Token) (stop : Cursor) : Lexer :=
  { l.push token l.cursor.mark stop.mark with cursor := stop }

/-- Adds an indicator of the given length. -/
def pushIndicator (l : Lexer) (token : Token) (length : Nat) : Lexer :=
  l.pushTo token (l.cursor.skip length)

/-- Puts a token of no width behind a number of tokens. -/
def insertAt (l : Lexer) (position : Nat) (token : Token) (mark : Mark) : Lexer :=
  { l with tokens := l.tokens.insertIdxIfInBounds position ⟨token, mark, mark⟩ }

/-! ### Indentation -/

/-- Opens a block collection at a column that is deeper than the indentation. -/
def openAt (l : Lexer) (column : Nat) : Option Lexer :=
  if l.indent < column then
    some { l with indent := column, outerIndents := l.indent :: l.outerIndents }
  else none

/-- Closes the block collections that are deeper than a column, the innermost first. -/
def closeTo (column : Int) : List Int → Lexer → Lexer
  | outer :: outers, l =>
    if column < l.indent then
      closeTo column outers
        { l.pushHere .blockEnd with indent := outer, outerIndents := outers }
    else l
  | [], l => l

/-- Closes the block collections that are deeper than a column; in a flow collection indentation
means nothing. -/
def unwind (l : Lexer) (column : Int) : Lexer :=
  if l.inFlow then l else closeTo column l.outerIndents l

/-! ### Possible keys -/

/-- The greatest distance between a key without an indicator and its colon. -/
def keyLimit : Nat := 1024

/-- Forgets the possible key at the present depth; one that had to be a key is an error. -/
def forgetKey (l : Lexer) : Except YamlFault Lexer :=
  match l.keys.lookup l.flowDepth with
  | some key =>
    if key.required then .error .invalid
    else .ok { l with keys := l.keys.filter (·.1 != l.flowDepth) }
  | none => .ok l

/-- Whether a colon here is too far from a token to make it a key. -/
def isStale (l : Lexer) (key : SimpleKey) : Bool :=
  key.mark.line != l.cursor.line || keyLimit < l.cursor.index - key.index

/-- Forgets the possible keys on earlier lines or too far back. -/
def forgetStaleKeys (l : Lexer) : Except YamlFault Lexer :=
  if l.keys.any fun (_, key) => l.isStale key && key.required then .error .invalid
  else .ok { l with keys := l.keys.filter fun (_, key) => !l.isStale key }

/-- Remembers that the next token may be a key, if one is allowed here. -/
def rememberKey (l : Lexer) : Except YamlFault Lexer :=
  if l.allowsKey then do
    let required := !l.inFlow && l.indent == l.cursor.column
    let l ← l.forgetKey
    return { l with
      keys := (l.flowDepth, ⟨l.tokens.size, required, l.cursor.index, l.cursor.mark⟩) :: l.keys }
  else .ok l

/-! ### Blanks, directives, tags -/

/-- The cursor behind blanks, comments and line ends, and whether there was a line end; over at most
so many lines. -/
def skipBlanks : Nat → Cursor → Bool × Cursor
  | 0, c => (false, c)
  | n + 1, c =>
    let c := c.skipSpaces
    let c := if c.at? '#' then c.skipWhile (!isBreak ·) else c
    match c.lineBreak? with
    | some (_, c) => (true, (skipBlanks n c).2)
    | none => (false, c)

/-- Goes to the next token. In a block a new line may begin with a key. -/
def toNextToken (l : Lexer) : Lexer :=
  let c := l.cursor
  let c := if c.index = 0 && c.at? byteOrderMark then c.next else c
  let (newLine, c) := skipBlanks c.rest.length.succ c
  { l with cursor := c, allowsKey := l.allowsKey || (newLine && !l.inFlow) }

/-- Whether a character may stand in the name of an anchor, a directive or a handle. -/
def isNameChar (c : Char) : Bool := c.isAlphanum || c == '-' || c == '_'

/-- A name in front that is not empty. -/
def takeName (c : Cursor) : Except YamlFault (String × Cursor) :=
  match c.takeWhile isNameChar with
  | ([], _) => .error .invalid
  | (cs, c) => .ok (String.ofList cs, c)

/-- Whether a character may stand in the address of a tag; `%` begins an escape. -/
def isAddressChar (c : Char) : Bool :=
  c.isAlphanum || "-;/?:@&=+$,_.!~*'()[]".toList.contains c

/-- The bytes of the escapes in front. -/
def addressEscapes : List Char → Except YamlFault (List UInt8 × List Char)
  | '%' :: a :: b :: cs =>
    match Quoted.hexValue? a, Quoted.hexValue? b with
    | some a, some b => do
      let (bytes, cs) ← addressEscapes cs
      return ((a * 16 + b).toUInt8 :: bytes, cs)
    | _, _ => .error .invalid
  | '%' :: _ => .error .invalid
  | cs => .ok ([], cs)

/-- The characters of an address in at most so many pieces, and the cursor behind it. -/
def addressPieces : Nat → Cursor → Except YamlFault (List Char × Cursor)
  | 0, c => .ok ([], c)
  | n + 1, c => do
    let (run, c) := c.takeWhile isAddressChar
    if c.at? '%' then
      let (bytes, rest) ← addressEscapes c.rest
      match Utf8.decodeFrom 0 bytes with
      | .error _ => throw .invalid
      | .ok cs => do
        let (more, c) ← addressPieces n (c.skip (c.rest.length - rest.length))
        return (run ++ cs ++ more, c)
    else return (run, c)

/-- The address of a tag, which is not empty. -/
def takeAddress (c : Cursor) : Except YamlFault (String × Cursor) := do
  match ← addressPieces c.rest.length.succ c with
  | (cs, c') => if c.rest.length = c'.rest.length then throw .invalid else return (String.ofList cs, c')

/-- The handle of a tag: an exclamation mark, or a name between two of them. -/
def takeHandle (c : Cursor) : Except YamlFault (String × Cursor) :=
  if !c.at? '!' then .error .invalid
  else if c.next.at? ' ' then .ok ("!", c.next)
  else
    let (name, c) := c.next.takeWhile isNameChar
    if c.at? '!' then .ok ("!" ++ String.ofList name ++ "!", c.next) else .error .invalid

/-- The major number of a version directive. -/
def takeVersion (c : Cursor) : Except YamlFault (Nat × Cursor) := do
  let number (c : Cursor) : Except YamlFault (Nat × Cursor) :=
    match c.takeWhile Char.isDigit with
    | ([], _) => .error .invalid
    | (cs, c') =>
      if NumberError.digitLimit < cs.length then .error (.number (.tooManyDigits cs.length))
      else .ok (Number.valueIn 10 (cs.map fun ch => ch.toNat - '0'.toNat), c')
  let (major, c) ← number c.skipSpaces
  if !c.at? '.' then throw .invalid
  let (_, c) ← number c.next
  if endsWord c.peek then return (major, c) else throw .invalid

/-- A handle and what it stands for. -/
def takeTagHandle (c : Cursor) : Except YamlFault (Directive × Cursor) := do
  let (handle, c) ← takeHandle c.skipSpaces
  if !c.at? ' ' then throw .invalid
  let (head, c) ← takeAddress c.skipSpaces
  if endsWord c.peek then return (.tagHandle handle head, c) else throw .invalid

/-- Reads a directive up to the end of its line. -/
def readDirective (l : Lexer) : Except YamlFault Lexer := do
  let (name, c) ← takeName l.cursor.next
  if !endsWord c.peek then throw .invalid
  let (directive, c) ← match name with
    | "YAML" => do
      let (major, c) ← takeVersion c
      pure (Directive.version major, c)
    | "TAG" => takeTagHandle c
    | _ => pure (Directive.reserved, c.skipWhile (!isBreak ·))
  let l := l.pushTo (.directive directive) c
  return { l with cursor := ← Block.restOfLine c }

/-- Whether the handle of a tag goes on behind its first exclamation mark. -/
def hasHandle : List Char → Bool
  | [] => false
  | c :: cs => if endsWord (some c) then false else c == '!' || hasHandle cs

/-- Reads a tag: an address between angle brackets, a lone exclamation mark, or a handle with an
address. -/
def readTag (l : Lexer) : Except YamlFault Lexer := do
  let c := l.cursor.next
  let (handle, suffix, c) ←
    if c.at? '<' then do
      let (address, c) ← takeAddress c.next
      if c.at? '>' then pure (none, address, c.next) else throw .invalid
    else if isGap c.peek then pure (none, "!", c)
    else do
      let (handle, c) ← if hasHandle c.rest then takeHandle l.cursor else pure ("!", c)
      let (suffix, c) ← takeAddress c
      pure (some handle, suffix, c)
  if endsWord c.peek then return l.pushTo (.tag handle suffix) c else throw .invalid

/-- Whether an anchor or a reference ends in front of a character. -/
def endsAnchor (c : Option Char) : Bool :=
  isGap c || c.any fun ch => "?:,]%@\x7d".toList.contains ch || ch == Char.ofNat 0x60

/-- Reads the name of an anchor or a reference behind its indicator. -/
def readAnchor (l : Lexer) (token : String → Token) : Except YamlFault Lexer := do
  let (name, c) ← takeName l.cursor.next
  if endsAnchor c.peek then return l.pushTo (token name) c else throw .invalid

/-! ### Tokens -/

/-- Ends all block collections and forgets the key in front of a mark that ends a document. -/
def leaveDocument (l : Lexer) : Except YamlFault Lexer := do
  let l ← (l.unwind (-1)).forgetKey
  return { l with allowsKey := false }

def readFlowStart (l : Lexer) (token : Token) : Except YamlFault Lexer := do
  let l ← l.rememberKey
  return { l with flowDepth := l.flowDepth + 1, allowsKey := true }.pushIndicator token 1

/-- Reads the end of a flow collection, which must be open. -/
def readFlowEnd (l : Lexer) (token : Token) : Except YamlFault Lexer := do
  let l ← l.forgetKey
  if l.inFlow then
    return { l with flowDepth := l.flowDepth - 1, allowsKey := false }.pushIndicator token 1
  else throw .invalid

def readFlowEntry (l : Lexer) : Except YamlFault Lexer := do
  return { ← l.forgetKey with allowsKey := true }.pushIndicator .flowEntry 1

/-- Opens a block collection at the cursor if it is deeper than the indentation, where a key is
allowed; in a flow collection there is nothing to open. -/
def openHere (l : Lexer) (token : Token) : Except YamlFault Lexer :=
  if l.inFlow then .ok l
  else if !l.allowsKey then .error .invalid
  else
    match l.openAt l.cursor.column with
    | some l => .ok (l.pushHere token)
    | none => .ok l

def readBlockEntry (l : Lexer) : Except YamlFault Lexer := do
  let l ← l.openHere .blockSequenceStart
  let l ← { l with allowsKey := true }.forgetKey
  return l.pushIndicator .blockEntry 1

def readKey (l : Lexer) : Except YamlFault Lexer := do
  let l ← l.openHere .blockMappingStart
  let l ← { l with allowsKey := !l.inFlow }.forgetKey
  return l.pushIndicator .key 1

/-- Makes a token that may be a key one, and opens a block mapping in front of it if need be. -/
def announceKey (l : Lexer) (key : SimpleKey) : Lexer :=
  let l := { l with keys := l.keys.filter (·.1 != l.flowDepth), allowsKey := false }
  let l := l.insertAt key.tokensBefore .key key.mark
  if l.inFlow then l
  else
    match l.openAt key.mark.column with
    | some l => l.insertAt key.tokensBefore .blockMappingStart key.mark
    | none => l

def readValue (l : Lexer) : Except YamlFault Lexer := do
  match l.keys.lookup l.flowDepth with
  | some key => return (l.announceKey key).pushIndicator .value 1
  | none =>
    let l ← l.openHere .blockMappingStart
    let l ← { l with allowsKey := !l.inFlow }.forgetKey
    return l.pushIndicator .value 1

def readBlockScalar (l : Lexer) (folded : Bool) : Except YamlFault Lexer := do
  let l ← { l with allowsKey := true }.forgetKey
  let (text, c) ← Block.scan folded l.indent l.cursor
  return l.pushTo (.scalar (String.ofList text) false) c

def readQuoted (l : Lexer) (double : Bool) : Except YamlFault Lexer := do
  let l ← l.rememberKey
  let (text, c) ← Quoted.scan double l.cursor
  return { l with allowsKey := false }.pushTo (.scalar (String.ofList text) false) c

def readPlain (l : Lexer) : Except YamlFault Lexer := do
  let l ← l.rememberKey
  let (text, newLine, c) := Plain.scan l.inFlow l.indent l.cursor
  return { l with allowsKey := newLine }.pushTo (.scalar (String.ofList text) true) c

/-- Whether a plain scalar begins here: with no indicator, or with one that no blank follows. -/
def startsPlain (l : Lexer) (ch : Char) : Bool :=
  let indicators := "-?:,[]#&*!|>'%@\"\x7b\x7d".toList
  (!isGap (some ch) && !indicators.contains ch && ch != Char.ofNat 0x60)
    || (!isGap (l.cursor.peekAt 1) && (ch == '-' || (!l.inFlow && (ch == '?' || ch == ':'))))

/-- Reads the token that begins with a character. -/
def readToken (l : Lexer) (ch : Char) : Except YamlFault Lexer :=
  let gapFollows := isGap (l.cursor.peekAt 1)
  if ch == '%' && l.cursor.column == 0 then do (← l.leaveDocument).readDirective
  else if l.cursor.column == 0 && l.cursor.atDocumentMark then do
    return (← l.leaveDocument).pushIndicator
      (if ch == '-' then .documentStart else .documentEnd) 3
  else if ch == '[' then l.readFlowStart .flowSequenceStart
  else if ch == '\x7b' then l.readFlowStart .flowMappingStart
  else if ch == ']' then l.readFlowEnd .flowSequenceEnd
  else if ch == '\x7d' then l.readFlowEnd .flowMappingEnd
  else if ch == ',' then l.readFlowEntry
  else if ch == '-' && gapFollows then l.readBlockEntry
  else if ch == '?' && (l.inFlow || gapFollows) then l.readKey
  else if ch == ':' && (l.inFlow || gapFollows) then l.readValue
  else if ch == '*' then do ({ ← l.rememberKey with allowsKey := false }).readAnchor .reference
  else if ch == '&' then do ({ ← l.rememberKey with allowsKey := false }).readAnchor .anchor
  else if ch == '!' then do ({ ← l.rememberKey with allowsKey := false }).readTag
  else if ch == '|' && !l.inFlow then l.readBlockScalar false
  else if ch == '>' && !l.inFlow then l.readBlockScalar true
  else if ch == '\'' then l.readQuoted false
  else if ch == '"' then l.readQuoted true
  else if l.startsPlain ch then l.readPlain
  else .error .invalid

/-- The tokens of a text, and the fault that ended them. -/
structure Outcome where
  tokens : List PlacedToken
  fault : Option YamlFault

/-- Reads the tokens that are left, at most so many. -/
def run : Nat → Lexer → Outcome
  | 0, l => ⟨l.tokens.toList, some .invalid⟩
  | n + 1, l =>
    match l.toNextToken.forgetStaleKeys with
    | .error fault => ⟨l.tokens.toList, some fault⟩
    | .ok l =>
      let l := l.unwind l.cursor.column
      match l.cursor.peek with
      | none =>
        match l.leaveDocument with
        | .error fault => ⟨l.tokens.toList, some fault⟩
        | .ok l => ⟨(l.pushHere .streamEnd).tokens.toList, none⟩
      | some ch =>
        match l.readToken ch with
        | .error fault => ⟨l.tokens.toList, some fault⟩
        | .ok l => run n l

/-- The tokens of a text. Every token but the last takes a character. -/
def tokensOf (text : String) : Outcome :=
  let cs := text.toList
  if cs.all isAllowed then run (cs.length + 1) { cursor := ⟨cs, 0, 0, 0⟩ }
  else ⟨[], some .invalid⟩

end Lexer

end ApiLint.Yaml
