import ApiLint.Number.Binary64
import ApiLint.Text.Blank
import ApiLint.Text.DecimalDigit
import ApiLint.Text.Quoted

/-!
# Reading numbers

Integers in a base and binary64 numbers from text. Both readers skip blanks at the ends, take the
decimal digits of every script, and allow single underscores between digits. Long runs of decimal
digits are refused, and integers with as many digits are not written either.
-/

namespace ApiLint

/-- Why a text or an integer is not a number of the wanted kind. -/
inductive NumberError
  /-- The text is not an integer in the base. -/
  | notInteger (base : Nat) (text : String)
  /-- The text has more digits than a reader takes in a base that is no power of two. -/
  | tooManyDigits (count : Nat)
  /-- The text is not a decimal number. -/
  | notDecimal (text : String)
  /-- The integer is beyond the range of binary64. -/
  | integerTooLarge
  /-- The integer has more decimal digits than are written. -/
  | tooLongToWrite
  deriving DecidableEq, Repr

namespace NumberError

/-- The largest count of digits that are read in a base that is no power of two, and that are
written in base ten. -/
def digitLimit : Nat := 4300

/-- The longest excerpt of a text that is not an integer. -/
def excerptLength : Nat := 200

def message : NumberError → String
  | .notInteger base text =>
    s!"invalid literal for int() with base {base}: "
      ++ String.ofList ((Text.quoted text).toList.take excerptLength)
  | .tooManyDigits count =>
    s!"Exceeds the limit ({digitLimit} digits) for integer string conversion: value has {count} "
      ++ "digits; use sys.set_int_max_str_digits() to increase the limit"
  | .notDecimal text => s!"could not convert string to float: {Text.quoted text}"
  | .integerTooLarge => "int too large to convert to float"
  | .tooLongToWrite =>
    s!"Exceeds the limit ({digitLimit} digits) for integer string conversion; "
      ++ "use sys.set_int_max_str_digits() to increase the limit"

end NumberError

namespace Number

/-- Blanks around a number: of ASCII only the five that space text, beyond ASCII all of them. -/
def isBlank (c : Char) : Bool :=
  if c.toNat < 0x80 then (0x09 ≤ c.toNat && c.toNat ≤ 0x0d) || c == ' ' else Text.isBlank c

/-- The characters without blanks at either end. -/
def strip (cs : List Char) : List Char :=
  ((cs.dropWhile isBlank).reverse.dropWhile isBlank).reverse

/-- Whether an integer has few enough decimal digits to be written. -/
def isWritable (n : Int) : Bool := n.natAbs < Nat.pow 10 NumberError.digitLimit

/-- The value of a digit in a base up to thirty-six: decimal digits of every script, then ASCII
letters of either case. -/
def digitIn? (base : Nat) (c : Char) : Option Nat :=
  let value :=
    match Text.digitValue? c with
    | some v => some v
    | none =>
      if 'a' ≤ c.toLower ∧ c.toLower ≤ 'z' then some (c.toLower.toNat - 'a'.toNat + 10) else none
  value.filter (· < base)

/-- The values of one or more digits with single underscores between them. -/
def digitsIn? (base : Nat) : List Char → Option (List Nat)
  | [] => none
  | [c] => (digitIn? base c).map ([·])
  | c :: '_' :: rest => do
    let d ← digitIn? base c
    let ds ← digitsIn? base rest
    return d :: ds
  | c :: rest => do
    let d ← digitIn? base c
    let ds ← digitsIn? base rest
    return d :: ds

/-- The letter that marks a base after a zero. -/
def baseMark? (base : Nat) : Option Char :=
  match base with
  | 2 => some 'b'
  | 8 => some 'o'
  | 16 => some 'x'
  | _ => none

/-- The characters after the mark of the base, if they begin with one. -/
def dropBaseMark (base : Nat) (cs : List Char) : List Char :=
  match cs with
  | '0' :: c :: rest =>
    if baseMark? base = some c.toLower then
      match rest with
      | '_' :: rest => rest
      | rest => rest
    else cs
  | _ => cs

/-- A sign in front, and the rest. -/
def splitSign : List Char → Bool × List Char
  | '-' :: rest => (true, rest)
  | '+' :: rest => (false, rest)
  | cs => (false, cs)

/-- The number that a list of digits denotes in a base. -/
def valueIn (base : Nat) (ds : List Nat) : Nat := ds.foldl (fun acc d => acc * base + d) 0

/-- Reads an integer in a base: a sign, a mark of the base, and digits. -/
def readInteger (base : Nat) (text : String) : Except NumberError Int :=
  let (negative, rest) := splitSign (strip text.toList)
  match digitsIn? base (dropBaseMark base rest) with
  | none => .error (.notInteger base text)
  | some ds =>
    if (baseMark? base).isNone && NumberError.digitLimit < ds.length then
      .error (.tooManyDigits ds.length)
    else
      let value : Int := valueIn base ds
      .ok (if negative then -value else value)

/-- The leading decimal digits as values, and the rest. -/
def spanDigits : List Char → List Nat × List Char
  | [] => ([], [])
  | c :: rest =>
    match Text.digitValue? c with
    | some d => let (ds, tail) := spanDigits rest; (d :: ds, tail)
    | none => ([], c :: rest)

/-- Removes single underscores between decimal digits; no result if an underscore stands
elsewhere. -/
def dropUnderscores : List Char → Option (List Char)
  | [] => some []
  | '_' :: _ => none
  | c :: '_' :: d :: rest =>
    if Text.isDecimalDigit c && Text.isDecimalDigit d then (dropUnderscores (d :: rest)).map (c :: ·)
    else none
  | c :: rest => (dropUnderscores rest).map (c :: ·)

/-- The exponent at the end of a decimal number: nothing, or `e` with a signed run of digits. -/
def readExponent? : List Char → Option Int
  | [] => some 0
  | c :: rest =>
    if c.toLower = 'e' then
      let (negative, rest) := splitSign rest
      match spanDigits rest with
      | ([], _) | (_, _ :: _) => none
      | (ds, []) => some (if negative then -(Text.valueOfDigits ds) else Text.valueOfDigits ds)
    else none

/-- Reads an unsigned decimal number: digits with at most one point, at least one digit, and an
exponent. -/
def readMagnitude? (negative : Bool) (cs : List Char) : Option Binary64 :=
  let word := String.ofList (cs.map Char.toLower)
  if word = "inf" ∨ word = "infinity" then some (.infinite negative)
  else if word = "nan" then some .nan
  else
    let (whole, rest) := spanDigits cs
    let (fraction, rest) := match rest with
      | '.' :: rest => spanDigits rest
      | rest => ([], rest)
    if whole.isEmpty && fraction.isEmpty then none
    else (readExponent? rest).map fun e =>
      .ofDecimal negative (Text.valueOfDigits (whole ++ fraction)) (e - fraction.length)

/-- Reads a decimal number as the nearest binary64 number. -/
def readDecimal (text : String) : Except NumberError Binary64 :=
  let (negative, rest) := splitSign (strip text.toList)
  match (dropUnderscores rest).bind (readMagnitude? negative) with
  | some x => .ok x
  | none => .error (.notDecimal text)

end Number

end ApiLint
