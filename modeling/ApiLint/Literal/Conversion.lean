import ApiLint.Calendar.IsoText
import ApiLint.Literal.Basic

/-!
# Raw values as literals

A raw value becomes a literal under the type and the format of the schema that governs it. A value
that the format can represent takes the kind of the format: a whole number under `int64`, a text
under `date` that reads as a date. Every other value keeps the kind it has of itself. Type and
format are raw values, since a document may declare anything.
-/

namespace ApiLint

/-- Why a raw value cannot become a literal. -/
inductive ConversionError
  /-- No literal holds values of the kind. -/
  | unsupported (kind : String)
  /-- The declared format is a collection, which no table of formats holds. -/
  | formatNotComparable (kind : String)
  /-- The integer is beyond the range of binary64. -/
  | numberTooLarge
  /-- The text of a key cannot be written. -/
  | key (error : NumberError)
  deriving DecidableEq, Repr

namespace ConversionError

def message : ConversionError → String
  | .unsupported kind => s!"Unsupported literal type: {kind}"
  | .formatNotComparable kind => s!"unhashable type: '{kind}'"
  | .numberTooLarge => "int too large to convert to float"
  | .key error => error.message

end ConversionError

namespace Raw

/-- Whether the value is the given text. -/
def isText (r : Raw) (s : String) : Bool :=
  match r with
  | .str t => t == s
  | _ => false

def isNull : Raw → Bool
  | .null => true
  | _ => false

/-- The kind of the collection that keeps a value from being a key. -/
def unkeyableKind : Raw → String
  | .pair k v => if k.isKey then v.unkeyableKind else k.unkeyableKind
  | r => r.kindName

end Raw

namespace Literal

/-- The least and the greatest integer of 32 bits. -/
def int32Min : Int := -2147483648
def int32Max : Int := 2147483647

/-- The integer as a binary64 number of the given kind. -/
def ofIntAs (kind : ScalarKind) (n : Int) : Except ConversionError Literal :=
  match Binary64.ofInt? n with
  | some x => .ok (.scalar kind (.float x))
  | none => .error .numberTooLarge

/-- An integer: long under `int64`, a number under `number`, and otherwise by its size. -/
def ofInt (n : Int) (type format : Raw) : Except ConversionError Literal :=
  if (type.isNull || type.isText "integer") && format.isText "int64" then .ok (.scalar .long (.int n))
  else if type.isText "number" && format.isText "float" then ofIntAs .float n
  else if type.isText "number" && format.isNull then ofIntAs .double n
  else if int32Min ≤ n ∧ n ≤ int32Max then .ok (.scalar .integer (.int n))
  else .ok (.scalar .long (.int n))

/-- The kinds of text that a format selects whatever the text. -/
def textKind? (format : String) : Option ScalarKind :=
  match format with
  | "password" => some .password
  | "byte" => some .byte
  | "binary" => some .binary
  | _ => none

/-- A text under a format that is a text. -/
def ofTextAs (s format : String) : Literal :=
  match textKind? format with
  | some kind => .scalar kind (.str s)
  | none =>
    let read : Option Literal :=
      if format = "date" then (IsoText.date? s).map fun d => .scalar .date (.date d)
      else if format = "date-time" then (IsoText.instant? s).map fun t => .scalar .dateTime (.dateTime t)
      else none
    read.getD (.scalar .string (.str s))

/-- A text: the hints apply only if the type is `string` or absent. -/
def ofText (s : String) (type format : Raw) : Except ConversionError Literal :=
  if type.isNull || type.isText "string" then
    match format with
    | .str f => .ok (ofTextAs s f)
    | f => if f.isKey then .ok (.scalar .string (.str s))
      else .error (.formatNotComparable f.unkeyableKind)
  else .ok (.scalar .string (.str s))

/-- A value that holds no other values, under the hints. -/
def ofScalar (raw type format : Raw) : Except ConversionError Literal :=
  match raw with
  | .null => .ok (.scalar .null .null)
  | .bool b => .ok (.scalar .boolean (.bool b))
  | .int n => ofInt n type format
  | .float x => .ok (.scalar (if format.isText "float" then .float else .double) (.float x))
  | .dateTime t => .ok (.scalar .dateTime (.dateTime t))
  | .date d =>
    if format.isText "date-time" then .ok (.scalar .dateTime (.dateTime (DateTime.midnight d)))
    else .ok (.scalar .date (.date d))
  | .str s => ofText s type format
  | r => .error (.unsupported r.kindName)

mutual

/-- A value under hints; what a collection holds is converted without hints. -/
def ofRaw (type format : Raw) : Raw → Except ConversionError Literal
  | .list items => do return .array (← ofItems items)
  | .pair k v => do return .array [← ofRaw .null .null k, ← ofRaw .null .null v]
  | .dict entries => do return .object (← ofEntries [] entries)
  | raw => ofScalar raw type format

def ofItems : List Raw → Except ConversionError (List Literal)
  | [] => .ok []
  | x :: xs => do
    let item ← ofRaw .null .null x
    return item :: (← ofItems xs)

/-- The entries of a mapping as members, after those read before; a key becomes its text. -/
def ofEntries (members : Fields Literal) : List (Raw × Raw) → Except ConversionError (Fields Literal)
  | [] => .ok members
  | (k, v) :: es => do
    (Raw.requireTexts [k]).mapError .key
    let member ← ofRaw .null .null v
    ofEntries (members.insert k.text member) es

end

end Literal

end ApiLint
