import ApiLint.Yaml.Cursor
import ApiLint.Yaml.Fault

/-!
# The text of scalars

How the text of a scalar is read: between quotes, with escapes between double ones; in a block that
its indentation bounds; or plain, up to an indicator. A single line end inside is a space, and of
several the first is dropped, unless a block keeps its lines.
-/

namespace ApiLint.Yaml

/-- Whether a character is a space or a tab. -/
def isSpaceOrTab (c : Char) : Bool := c == ' ' || c == '\t'

/-- What line ends become when lines are joined: the first one is dropped, or a space if it is the
only one. The separators of Unicode stay. -/
def foldBreaks (first : Char) (others : List Char) : List Char :=
  (if first != '\n' then [first] else if others.isEmpty then [' '] else []) ++ others

/-! ### Quoted scalars -/

namespace Quoted

/-- The line ends in front, with the blanks that begin lines left out, of at most so many lines. -/
def breaks : Nat → Cursor → Except YamlFault (List Char × Cursor)
  | 0, c => .ok ([], c)
  | n + 1, c =>
    if c.atDocumentMark then .error .invalid
    else
      let c := c.skipWhile isSpaceOrTab
      match c.lineBreak? with
      | none => .ok ([], c)
      | some (b, c) => do
        let (bs, c) ← breaks n c
        return (b :: bs, c)

/-- The blanks in front: as they are within a line, folded around line ends. -/
def spaces (c : Cursor) : Except YamlFault (List Char × Cursor) :=
  let (blanks, c) := c.takeWhile isSpaceOrTab
  if c.peek.isNone then .error .invalid
  else
    match c.lineBreak? with
    | none => .ok (blanks, c)
    | some (b, c) => do
      let (bs, c) ← breaks c.rest.length.succ c
      return (foldBreaks b bs, c)

/-- The characters that one letter stands for after a backslash. -/
def escapes : List (Char × Char) :=
  [('0', '\x00'), ('a', '\x07'), ('b', '\x08'), ('t', '\t'), ('\t', '\t'), ('n', '\n'),
    ('v', '\x0b'), ('f', '\x0c'), ('r', '\r'), ('e', '\x1b'), (' ', ' '), ('"', '"'),
    ('\\', '\\'), ('/', '/'), ('N', '\u0085'), ('_', '\u00a0'), ('L', '\u2028'), ('P', '\u2029')]

/-- The count of digits behind a letter that begins the number of a code point. -/
def codeLength? : Char → Option Nat
  | 'x' => some 2
  | 'u' => some 4
  | 'U' => some 8
  | _ => none

/-- The value of a hexadecimal digit. -/
def hexValue? (c : Char) : Option Nat :=
  if c.isDigit then some (c.toNat - '0'.toNat)
  else if 'a' ≤ c.toLower ∧ c.toLower ≤ 'f' then some (c.toLower.toNat - 'a'.toNat + 10)
  else none

/-- The number of a run of hexadecimal digits of the given length. -/
def code? (length : Nat) (cs : List Char) : Option Nat :=
  let digits := cs.take length
  if digits.length = length then (digits.mapM hexValue?).map (Number.valueIn 16) else none

/-- The character of a code point that an escape gives, or the one that stands for it. -/
def codePoint (n : Nat) : Except YamlFault Char :=
  if 0x10ffff < n then .error (.codePoint n)
  else if Text.isSurrogate n then .ok (Text.standIn n)
  else .ok (Char.ofNat n)

/-- What stands behind a backslash. -/
def escape (c : Cursor) : Except YamlFault (List Char × Cursor) :=
  match c.peek with
  | none => .error .invalid
  | some ch =>
    match escapes.lookup ch with
    | some replaced => .ok ([replaced], c.next)
    | none =>
      match codeLength? ch with
      | some length =>
        match code? length c.next.rest with
        | some n => do
          return ([← codePoint n], c.next.skip length)
        | none => .error .invalid
      | none =>
        match c.lineBreak? with
        | some (_, c) => breaks c.rest.length.succ c
        | none => .error .invalid

/-- Whether a character has no meaning of its own between quotes. -/
def isOrdinary (c : Char) : Bool :=
  !(c == '\'' || c == '"' || c == '\\' || isSpaceOrTab c || isBreak c)

/-- The text up to a blank or the closing quote, in at most so many pieces. -/
def word (double : Bool) : Nat → Cursor → Except YamlFault (List Char × Cursor)
  | 0, c => .ok ([], c)
  | n + 1, c => do
    let (run, c) := c.takeWhile isOrdinary
    let goOn (piece : List Char) (c : Cursor) : Except YamlFault (List Char × Cursor) := do
      let (more, c) ← word double n c
      return (run ++ piece ++ more, c)
    match double, c.rest with
    | false, '\'' :: '\'' :: _ => goOn ['\''] (c.skip 2)
    | true, '\'' :: _ => goOn ['\''] c.next
    | false, '"' :: _ => goOn ['"'] c.next
    | false, '\\' :: _ => goOn ['\\'] c.next
    | true, '\\' :: _ => do
      let (piece, c) ← escape c.next
      goOn piece c
    | _, _ => return (run, c)

/-- The text up to the closing quote, in at most so many words, and the cursor behind the quote. -/
def words (double : Bool) : Nat → Cursor → Except YamlFault (List Char × Cursor)
  | 0, c => .ok ([], c)
  | n + 1, c => do
    if c.at? (if double then '"' else '\'') then return ([], c.next)
    let (blanks, c) ← spaces c
    let (text, c) ← word double c.rest.length.succ c
    let (more, c) ← words double n c
    return (blanks ++ text ++ more, c)

/-- The text of a scalar whose opening quote is in front. -/
def scan (double : Bool) (c : Cursor) : Except YamlFault (List Char × Cursor) := do
  let c := c.next
  let (text, c) ← word double c.rest.length.succ c
  let (more, c) ← words double c.rest.length.succ c
  return (text ++ more, c)

end Quoted

/-! ### Block scalars -/

/-- What is done with the line ends at the end of a block. -/
inductive Chomping
  | clip | strip | keep
  deriving DecidableEq, Repr

namespace Block

/-- The mark for the end of a block, if there is one. -/
def chomping? : Option Char → Option Chomping
  | some '+' => some .keep
  | some '-' => some .strip
  | _ => none

/-- The mark for the indentation of a block, if there is one; zero is none. -/
def increment? (c : Cursor) : Except YamlFault (Option Nat × Cursor) :=
  match c.peek with
  | some ch =>
    if ch == '0' then .error .invalid
    else if ch.isDigit then .ok (some (ch.toNat - '0'.toNat), c.next)
    else .ok (none, c)
  | none => .ok (none, c)

/-- The marks behind the indicator of a block, in either order. -/
def header (c : Cursor) : Except YamlFault (Chomping × Option Nat × Cursor) := do
  let (chomping, increment, c) ← match chomping? c.peek with
    | some chomping => do
      let (increment, c) ← increment? c.next
      pure (chomping, increment, c)
    | none => do
      let (increment, c) ← increment? c
      match increment, chomping? c.peek with
      | some _, some chomping => pure (chomping, increment, c.next)
      | _, _ => pure (.clip, increment, c)
  if endsWord c.peek then return (chomping, increment, c) else throw .invalid

/-- The cursor behind the rest of a line that may hold spaces and a comment only. -/
def restOfLine (c : Cursor) : Except YamlFault Cursor :=
  let c := c.skipSpaces
  let c := if c.at? '#' then c.skipWhile (!isBreak ·) else c
  match c.lineBreak? with
  | some (_, c) => .ok c
  | none => if c.peek.isNone then .ok c else .error .invalid

/-- The cursor behind the spaces before a column. -/
def skipIndent (indent : Int) (c : Cursor) : Cursor :=
  let spaces := (c.rest.takeWhile (· == ' ')).length
  c.skip (min spaces (indent - c.column).toNat)

/-- The line ends in front of the first line of a block, and the greatest column that the spaces on
the way come to. -/
def leadingBreaks : Nat → Nat → Cursor → List Char × Nat × Cursor
  | 0, widest, c => ([], widest, c)
  | n + 1, widest, c =>
    let c := c.skipSpaces
    let widest := max widest c.column
    match c.lineBreak? with
    | none => ([], widest, c)
    | some (b, c) =>
      let (bs, widest, c) := leadingBreaks n widest c
      (b :: bs, widest, c)

/-- The line ends between the lines of a block; the spaces before its indentation are left out. -/
def breaks (indent : Int) : Nat → Cursor → List Char × Cursor
  | 0, c => ([], c)
  | n + 1, c =>
    let c := skipIndent indent c
    match c.lineBreak? with
    | none => ([], c)
    | some (b, c) =>
      let (bs, c) := breaks indent n c
      (b :: bs, c)

/-- What stands between two lines of a block: the line end, or, in a folded block between lines that
do not begin with blanks, a space unless empty lines follow. -/
def joint (folded : Bool) (leadingBlank : Bool) (lineEnd : List Char) (next : Cursor)
    (empty : List Char) : List Char :=
  if folded && lineEnd == ['\n'] && !leadingBlank && !next.peek.any isSpaceOrTab then
    if empty.isEmpty then [' '] else []
  else lineEnd

/-- The lines of a block at an indentation, at most so many; then the end of the last line and the
empty lines after it. The given line ends stand in front of the first line. -/
def lines (folded : Bool) (indent : Int) :
    Nat → List Char → Cursor → List Char × List Char × List Char × Cursor
  | 0, before, c => ([], [], before, c)
  | n + 1, before, c =>
    if (c.column : Int) == indent && c.peek.isSome then
      let leadingBlank := c.peek.any isSpaceOrTab
      let (line, c) := c.takeWhile (!isBreak ·)
      let (lineEnd, c) := match c.lineBreak? with
        | some (b, c) => ([b], c)
        | none => ([], c)
      let (empty, c) := breaks indent c.rest.length.succ c
      if (c.column : Int) == indent && c.peek.isSome then
        let (more, lastEnd, after, c') := lines folded indent n empty c
        (before ++ line ++ joint folded leadingBlank lineEnd c empty ++ more, lastEnd, after, c')
      else (before ++ line, lineEnd, empty, c)
    else ([], [], before, c)

/-- The text of a block whose indicator is in front, inside a block of the given indentation. -/
def scan (folded : Bool) (parent : Int) (c : Cursor) : Except YamlFault (List Char × Cursor) := do
  let (chomping, increment, c) ← header c.next
  let c ← restOfLine c
  let least := max (parent + 1) 1
  let (before, indent, c) := match increment with
    | some n =>
      let indent := least + n - 1
      let (bs, c) := breaks indent c.rest.length.succ c
      (bs, indent, c)
    | none =>
      let (bs, widest, c) := leadingBreaks c.rest.length.succ 0 c
      (bs, max least widest, c)
  let (text, lastEnd, after, c) := lines folded indent c.rest.length.succ before c
  let tail := match chomping with
    | .strip => []
    | .clip => lastEnd
    | .keep => lastEnd ++ after
  return (text ++ tail, c)

end Block

/-! ### Plain scalars -/

namespace Plain

/-- Whether a character parts the entries of a flow collection. -/
def isFlowIndicator (c : Char) : Bool :=
  c == ',' || c == '[' || c == ']' || c == '\x7b' || c == '\x7d'

/-- The characters in front that belong to a plain scalar, up to a blank. -/
def word (flow : Bool) : List Char → List Char
  | [] => []
  | c :: rest =>
    let ends := isGap (some c)
      || (c == ':' && (isGap rest.head? || (flow && rest.head?.any isFlowIndicator)))
      || (flow && (c == '?' || isFlowIndicator c))
    if ends then [] else c :: word flow rest

/-- The line ends in front and the spaces that begin lines. No result if a document ends there. -/
def breaks : Nat → Cursor → Option (List Char) × Cursor
  | 0, c => (some [], c)
  | n + 1, c =>
    let c := c.skipSpaces
    match c.lineBreak? with
    | none => (some [], c)
    | some (b, c) =>
      if c.atDocumentMark then (none, c)
      else
        let (bs, c) := breaks n c
        (bs.map (b :: ·), c)

/-- The blanks between two words of a plain scalar, whether they hold a line end, and the cursor
behind them. Blanks that end the scalar are none. -/
def spaces (c : Cursor) : List Char × Bool × Cursor :=
  let (blanks, c) := c.takeWhile (· == ' ')
  match c.lineBreak? with
  | none => (blanks, false, c)
  | some (b, c) =>
    if c.atDocumentMark then ([], true, c)
    else
      match breaks c.rest.length.succ c with
      | (some bs, c) => (foldBreaks b bs, true, c)
      | (none, c) => ([], true, c)

/-- The text of a plain scalar of at most so many words, whether a line end is the last thing read,
and the cursor. Lines that begin before the indentation do not belong to it. -/
def words (flow : Bool) (indent : Int) : Nat → Bool → Cursor → List Char × Bool × Cursor
  | 0, newLine, c => ([], newLine, c)
  | n + 1, newLine, c =>
    let text := if c.at? '#' then [] else word flow c.rest
    if text.isEmpty then ([], newLine, c)
    else
      let (blanks, newLine, c) := spaces (c.skip text.length)
      if blanks.isEmpty || c.at? '#' || (!flow && (c.column : Int) < indent) then (text, newLine, c)
      else
        let (more, newLine, c) := words flow indent n newLine c
        (text ++ (if more.isEmpty then [] else blanks ++ more), newLine, c)

/-- The text of a plain scalar inside a block of the given indentation, whether it is followed by a
line end, and the cursor behind it. -/
def scan (flow : Bool) (parent : Int) (c : Cursor) : List Char × Bool × Cursor :=
  words flow (parent + 1) c.rest.length.succ false c

end Plain

end ApiLint.Yaml
