import ApiLint.Raw.Basic
import ApiLint.Text.Base64
import ApiLint.Text.Case
import ApiLint.Yaml.Fault
import ApiLint.Yaml.Tag

/-!
# The values of scalars

What the text of a scalar stands for under its tag. A plain scalar has the form of its tag, but a
tag that is written out may stand in front of any text, and a date of the right form need not exist.
-/

namespace ApiLint.Yaml

namespace ScalarValue

/-! ### Booleans and numbers -/

/-- The words for booleans. -/
def boolWords : List (String × Bool) :=
  [("yes", true), ("no", false), ("true", true), ("false", false), ("on", true), ("off", false)]

def boolean (text : String) : Except YamlFault Raw :=
  let word := Text.lower text
  match boolWords.lookup word with
  | some b => .ok (.bool b)
  | none => .error (.boolean word)

/-- The characters between colons. -/
def splitColons : List Char → List (List Char)
  | [] => [[]]
  | ':' :: cs => [] :: splitColons cs
  | c :: cs =>
    match splitColons cs with
    | part :: parts => (c :: part) :: parts
    | [] => [[c]]

/-- The text of a number without underscores, and without its sign. A number without any text is
refused. -/
def unsigned (cs : List Char) : Except YamlFault (Bool × List Char) :=
  match cs.filter (· != '_') with
  | [] => .error .emptyNumber
  | cs => .ok (Number.splitSign cs)

/-- Reads an integer in a base. -/
def integerIn (base : Nat) (cs : List Char) : Except YamlFault Int :=
  (Number.readInteger base (String.ofList cs)).mapError .number

/-- The integer without its sign: zero, a number with a mark of its base, an octal number after a
zero, a number in base sixty with colons, or a decimal number. -/
def magnitude (cs : List Char) : Except YamlFault Int :=
  match cs with
  | [] => .error .emptyNumber
  | ['0'] => .ok 0
  | '0' :: 'b' :: digits => integerIn 2 digits
  | '0' :: 'x' :: digits => integerIn 16 digits
  | '0' :: _ => integerIn 8 cs
  | _ =>
    if cs.contains ':' then do
      let parts ← (splitColons cs).mapM (integerIn 10)
      return parts.foldl (fun acc part => acc * 60 + part) 0
    else integerIn 10 cs

def integer (text : String) : Except YamlFault Raw := do
  let (negative, cs) ← unsigned text.toList
  let n ← magnitude cs
  return .int (if negative then -n else n)

/-- Reads a decimal number. -/
def decimal (cs : List Char) : Except YamlFault Binary64 :=
  (Number.readDecimal (String.ofList cs)).mapError .number

/-- The sum of digits times powers of sixty, from the lowest digit on; every product and every sum
is rounded. -/
def sexagesimal : List Binary64 → Binary64 → Int → Except YamlFault Binary64
  | [], total, _ => .ok total
  | digit :: digits, total, base =>
    match Binary64.ofInt? base with
    | some factor => sexagesimal digits (total.add (digit.mul factor)) (base * 60)
    | none => .error (.number .integerTooLarge)

/-- The number without its sign: an infinity, not-a-number, a number in base sixty with colons, or a
decimal number. -/
def floatMagnitude (cs : List Char) : Except YamlFault Binary64 :=
  if String.ofList cs = ".inf" then .ok (.infinite false)
  else if String.ofList cs = ".nan" then .ok .nan
  else if cs.contains ':' then do
    let parts ← (splitColons cs).mapM decimal
    sexagesimal parts.reverse (.zero false) 1
  else decimal cs

def float (text : String) : Except YamlFault Raw := do
  let (negative, cs) ← unsigned (Text.lower text).toList
  let x ← floatMagnitude cs
  return .float (if negative then x.neg else x)

/-! ### Timestamps -/

/-- A number of one or two digits, at least so many, and what stands behind it. -/
def shortNumber? (least : Nat) (cs : List Char) : Option (Nat × List Char) :=
  let digits := (cs.take 2).takeWhile Char.isDigit
  if least ≤ digits.length then
    some (Number.valueIn 10 (digits.map fun c => c.toNat - '0'.toNat), cs.drop digits.length)
  else none

/-- What stands behind a character. -/
def behind? (c : Char) : List Char → Option (List Char)
  | d :: cs => if c = d then some cs else none
  | [] => none

/-- The microseconds of a fraction, of which six digits count. -/
def microseconds (digits : List Char) : Nat :=
  Number.valueIn 10 ((digits.take 6 ++ List.replicate (6 - digits.length) '0').map fun c =>
    c.toNat - '0'.toNat)

/-- Whether nothing is left of a text but perhaps a line feed. -/
def isEnd (cs : List Char) : Bool := cs.isEmpty || cs == ['\n']

/-- A date behind four digits of a year, and what stands behind it. -/
def splitDate? (cs : List Char) : Option ((Nat × Nat × Nat) × List Char) := do
  let (century, cs) ← shortNumber? 2 cs
  let (year, cs) ← shortNumber? 2 cs
  let (month, cs) ← shortNumber? 1 (← behind? '-' cs)
  let (day, cs) ← shortNumber? 1 (← behind? '-' cs)
  return ((century * 100 + year, month, day), cs)

/-- A time of day behind the mark that parts it from the date, with microseconds, and what stands
behind it. -/
def splitClock? (cs : List Char) : Option ((Nat × Nat × Nat × Nat) × List Char) := do
  let blank (c : Char) : Bool := c == ' ' || c == '\t'
  let cs ← match cs with
    | c :: rest =>
      if c == 'T' || c == 't' then some rest else if blank c then some (rest.dropWhile blank) else none
    | [] => none
  let (hour, cs) ← shortNumber? 1 cs
  let (minute, cs) ← shortNumber? 2 (← behind? ':' cs)
  let (second, cs) ← shortNumber? 2 (← behind? ':' cs)
  let (digits, cs) := match cs with
    | '.' :: rest => (rest.takeWhile Char.isDigit, rest.dropWhile Char.isDigit)
    | _ => ([], cs)
  return ((hour, minute, second, microseconds digits), cs)

/-- The offset at the end of a text, in microseconds: nothing, `Z`, or a signed number of hours and
perhaps minutes. -/
def offset? (cs : List Char) : Option (Option Int) :=
  if isEnd cs then some none
  else
    match cs.dropWhile fun c => c == ' ' || c == '\t' with
    | 'Z' :: rest => if isEnd rest then some (some 0) else none
    | c :: rest =>
      if c == '+' || c == '-' then do
        let (hours, rest) ← shortNumber? 1 rest
        let (minutes, rest) ← match rest with
          | ':' :: rest => shortNumber? 2 rest
          | _ => some (0, rest)
        let size : Int := ((hours * 60 + minutes) * 60 * microsPerSecond : Nat)
        if isEnd rest then some (some (if c == '-' then -size else size)) else none
      else none
    | [] => none

/-- Reads a timestamp. Its offset is examined before its date. -/
def timestamp (text : String) : Except YamlFault Raw :=
  match splitDate? text.toList with
  | none => .error .timestamp
  | some ((year, month, day), cs) =>
    if isEnd cs then
      ((Date.ofNumbers year month day).mapError .calendar).map .date
    else
      match (splitClock? cs).bind fun (clock, rest) => (offset? rest).map fun o => (clock, o) with
      | none => .error .timestamp
      | some ((hour, minute, second, micros), offset) => do
        if let some o := offset then
          (DateTime.checkOffset o).mapError .calendar
        let t ← (DateTime.ofNumbers year month day hour minute second micros offset).mapError
          .calendar
        return .dateTime t

/-! ### Bytes -/

/-- Reads bytes in base 64 from ASCII text. -/
def binary (text : String) : Except YamlFault Raw :=
  if text.toList.all fun c => c.toNat < 0x80 then
    match Text.Base64.decode text.toList with
    | some bytes => .ok (.bytes bytes)
    | none => .error .invalid
  else .error .invalid

/-- The value of a text under a tag; no collection and no other tag has one. -/
def ofText (tag : Tag) (text : String) : Except YamlFault Raw :=
  match tag with
  | .null => .ok .null
  | .bool => boolean text
  | .int => integer text
  | .float => float text
  | .str => .ok (.str text)
  | .binary => binary text
  | .timestamp => timestamp text
  | _ => .error .invalid

end ScalarValue

end ApiLint.Yaml
