import ApiLint.Number.Binary64
import ApiLint.Raw.Basic
import ApiLint.Text.DecimalDigit
import ApiLint.Yaml.Lexer

/-!
# JSON texts

The texts of RFC 8259 by their parts: white space, numbers, strings, and values in arrays and
objects. A part can hold what the grammar lets it hold and nothing else. It is written as
characters, and a value denotes a raw value. Most of JSON is a part of YAML, but not all of it: what
is not shared with YAML is told apart at the end.
-/

namespace ApiLint.Json

/-! ### White space -/

/-- A character of white space. -/
inductive Blank
  | space | tab | lineFeed | carriageReturn
  deriving DecidableEq, Repr

def Blank.char : Blank → Char
  | .space => ' '
  | .tab => '\t'
  | .lineFeed => '\n'
  | .carriageReturn => '\r'

/-- White space as characters. -/
def blankChars (bs : List Blank) : List Char := bs.map Blank.char

/-- Something between white space. -/
structure Spaced (α : Type) where
  before : List Blank
  value : α
  after : List Blank

def Spaced.chars {α : Type} (write : α → List Char) (s : Spaced α) : List Char :=
  blankChars s.before ++ (write s.value ++ blankChars s.after)

/-! ### Numbers -/

abbrev Digit := Fin 10

/-- The last digit of a number. -/
def Digit.ofNat (n : Nat) : Digit := Fin.ofNat 10 n

def digitChars (ds : List Digit) : List Char := ds.map fun d => Nat.digitChar d.val

/-- The number that digits denote. -/
def valueOf (ds : List Digit) : Nat := Text.valueOfDigits (ds.map Fin.val)

/-- One or more digits. -/
structure Digits where
  first : Digit
  others : List Digit

def Digits.all (ds : Digits) : List Digit := ds.first :: ds.others

/-- The digits in front of the point: a zero alone, or digits that do not begin with a zero. -/
inductive Whole
  | zero
  | positive (first : Fin 9) (others : List Digit)

def Whole.digits : Whole → List Digit
  | .zero => [0]
  | .positive first others => first.succ :: others

/-- An exponent with its letter. Its sign, if there is one, may be that of a negative number. -/
structure Exponent where
  capital : Bool
  sign : Option Bool
  digits : Digits

namespace Exponent

def signChars (e : Exponent) : List Char :=
  e.sign.elim [] fun negative => [if negative then '-' else '+']

def chars (e : Exponent) : List Char :=
  (if e.capital then 'E' else 'e') :: (e.signChars ++ digitChars e.digits.all)

def value (e : Exponent) : Int :=
  if e.sign = some true then -valueOf e.digits.all else valueOf e.digits.all

end Exponent

/-- The sign in front of a number: that of a negative one or none. -/
def signChars (negative : Bool) : List Char := if negative then ['-'] else []

structure Numeral where
  negative : Bool
  whole : Whole
  fraction : Option Digits
  exponent : Option Exponent

namespace Numeral

/-- The digits behind the point. -/
def fractionDigits (n : Numeral) : List Digit := n.fraction.elim [] Digits.all

def chars (n : Numeral) : List Char :=
  signChars n.negative ++ (digitChars n.whole.digits
    ++ ((n.fraction.elim [] fun ds => '.' :: digitChars ds.all)
    ++ n.exponent.elim [] Exponent.chars))

/-- A number without fraction and exponent is an integer, and any other one the nearest binary64
number. -/
def raw (n : Numeral) : Raw :=
  if n.fraction.isNone && n.exponent.isNone then
    .int (if n.negative then -valueOf n.whole.digits else valueOf n.whole.digits)
  else
    .float (.ofDecimal n.negative (valueOf (n.whole.digits ++ n.fractionDigits))
      (n.exponent.elim 0 Exponent.value - n.fractionDigits.length))

end Numeral

/-! ### Strings -/

/-- Whether a character may stand in a string as it is. -/
def isUnescaped (c : Char) : Bool := 0x20 ≤ c.toNat && c != '"' && c != '\\'

/-- A character that is written as a letter behind a backslash. -/
inductive Escape
  | quote | backslash | slash | backspace | formFeed | lineFeed | carriageReturn | tab
  deriving DecidableEq, Repr

namespace Escape

def letter : Escape → Char
  | .quote => '"'
  | .backslash => '\\'
  | .slash => '/'
  | .backspace => 'b'
  | .formFeed => 'f'
  | .lineFeed => 'n'
  | .carriageReturn => 'r'
  | .tab => 't'

def char : Escape → Char
  | .quote => '"'
  | .backslash => '\\'
  | .slash => '/'
  | .backspace => '\x08'
  | .formFeed => '\x0c'
  | .lineFeed => '\n'
  | .carriageReturn => '\r'
  | .tab => '\t'

end Escape

/-- A hexadecimal digit in one of its two forms. -/
structure HexDigit where
  value : Fin 16
  capital : Bool

def HexDigit.char (d : HexDigit) : Char :=
  if d.capital then (Nat.digitChar d.value.val).toUpper else Nat.digitChar d.value.val

/-- A code unit of UTF-16, written with four digits. -/
structure CodeUnit where
  first : HexDigit
  second : HexDigit
  third : HexDigit
  fourth : HexDigit

namespace CodeUnit

def hexDigits (u : CodeUnit) : List HexDigit := [u.first, u.second, u.third, u.fourth]

def value (u : CodeUnit) : Nat := Number.valueIn 16 (u.hexDigits.map fun d => d.value.val)

def isHigh (u : CodeUnit) : Bool := 0xd800 ≤ u.value && u.value ≤ 0xdbff
def isLow (u : CodeUnit) : Bool := 0xdc00 ≤ u.value && u.value ≤ 0xdfff

end CodeUnit

/-- A piece of a string. -/
inductive Piece
  | plain (c : { c : Char // isUnescaped c = true })
  | escape (e : Escape)
  | unit (u : CodeUnit)

def Piece.chars : Piece → List Char
  | .plain c => [c.val]
  | .escape e => ['\\', e.letter]
  | .unit u => '\\' :: 'u' :: u.hexDigits.map HexDigit.char

/-- The characters of a text. Two code units that are a surrogate pair are one character; a half of
a pair alone is none, and has a character that stands for it. -/
def textOf : List Piece → List Char
  | [] => []
  | .plain c :: ps => c.val :: textOf ps
  | .escape e :: ps => e.char :: textOf ps
  | .unit u :: .unit v :: ps =>
    if u.isHigh && v.isLow then
      Char.ofNat (0x10000 + (u.value - 0xd800) * 0x400 + (v.value - 0xdc00)) :: textOf ps
    else
      (if u.isHigh || u.isLow then Text.standIn u.value else Char.ofNat u.value)
        :: textOf (.unit v :: ps)
  | .unit u :: ps =>
    (if u.isHigh || u.isLow then Text.standIn u.value else Char.ofNat u.value) :: textOf ps

/-- A string between its quotes. -/
def quotedChars (ps : List Piece) : List Char := '"' :: (ps.flatMap Piece.chars ++ ['"'])

/-! ### Values -/

/-- A member of an object, on either side of the colon. -/
structure Member (α : Type) where
  name : Spaced (List Piece)
  value : Spaced α

inductive Value
  | null
  | bool (b : Bool)
  | number (n : Numeral)
  | string (ps : List Piece)
  /-- An array, with white space in front of the bracket that closes it. -/
  | array (items : List (Spaced Value)) (close : List Blank)
  /-- An object, with white space in front of the brace that closes it. -/
  | object (members : List (Member Value)) (close : List Blank)

namespace Value

mutual

def chars : Value → List Char
  | .null => "null".toList
  | .bool b => if b then "true".toList else "false".toList
  | .number n => n.chars
  | .string ps => quotedChars ps
  | .array items close => '[' :: (itemChars true items ++ (blankChars close ++ [']']))
  | .object members close => '\x7b' :: (memberChars true members ++ (blankChars close ++ ['\x7d']))

/-- Items, each but the first of an array behind a comma. -/
def itemChars (first : Bool) : List (Spaced Value) → List Char
  | [] => []
  | ⟨before, value, after⟩ :: items =>
    (if first then [] else [',']) ++ (blankChars before ++ (chars value ++ (blankChars after
      ++ itemChars false items)))

/-- Members, each but the first of an object behind a comma. -/
def memberChars (first : Bool) : List (Member Value) → List Char
  | [] => []
  | ⟨name, before, value, after⟩ :: members =>
    (if first then [] else [',']) ++ (name.chars quotedChars ++ (':' :: (blankChars before
      ++ (chars value ++ (blankChars after ++ memberChars false members)))))

end

mutual

/-- The raw value that a JSON value denotes. -/
def raw : Value → Raw
  | .null => .null
  | .bool b => .bool b
  | .number n => n.raw
  | .string ps => .str (String.ofList (textOf ps))
  | .array items _ => .list (itemRaws items)
  | .object members _ => .dict (memberEntries members)

def itemRaws : List (Spaced Value) → List Raw
  | [] => []
  | ⟨_, value, _⟩ :: items => raw value :: itemRaws items

def memberEntries : List (Member Value) → List (Raw × Raw)
  | [] => []
  | ⟨name, _, value, _⟩ :: members =>
    (.str (String.ofList (textOf name.value)), raw value) :: memberEntries members

end

end Value

/-- A text with an object at its root. -/
structure Document where
  before : List Blank
  members : List (Member Value)
  close : List Blank
  after : List Blank

namespace Document

def root (d : Document) : Value := .object d.members d.close

def text (d : Document) : String :=
  String.ofList (blankChars d.before ++ (d.root.chars ++ blankChars d.after))

/-- The raw value that the text denotes. -/
def raw (d : Document) : Raw := d.root.raw

end Document

/-! ### What YAML shares -/

/-- Between tokens YAML takes no tabs. -/
def Blank.isShared (b : Blank) : Bool := b != .tab

/-- YAML takes a number with an exponent for a text unless the exponent has a sign and stands behind
a fraction, and integers are read up to a number of digits. -/
def Numeral.isShared (n : Numeral) : Bool :=
  match n.fraction, n.exponent with
  | none, none => n.whole.digits.length ≤ NumberError.digitLimit
  | none, some _ => false
  | some _, none => true
  | some _, some e => e.sign.isSome

/-- YAML refuses some characters, and takes others for line ends. Halves of surrogate pairs, which
are no characters of their own, are left out. -/
def Piece.isShared : Piece → Bool
  | .plain c => Yaml.isAllowed c && !Yaml.isBreak c
  | .escape _ => true
  | .unit u => !(u.isHigh || u.isLow)

/-- YAML asks for the colon of a key on the line of the key, and not too far from its beginning. -/
def isSharedName (name : Spaced (List Piece)) : Bool :=
  name.before.all Blank.isShared && name.value.all Piece.isShared && name.after.all (· == .space)
    && (quotedChars name.value).length + name.after.length ≤ Yaml.Lexer.keyLimit

namespace Value

mutual

def isShared : Value → Bool
  | .null | .bool _ => true
  | .number n => n.isShared
  | .string ps => ps.all Piece.isShared
  | .array items close => itemsShared items && close.all Blank.isShared
  | .object members close => membersShared members && close.all Blank.isShared

def itemsShared : List (Spaced Value) → Bool
  | [] => true
  | ⟨before, value, after⟩ :: items =>
    before.all Blank.isShared && isShared value && after.all Blank.isShared && itemsShared items

def membersShared : List (Member Value) → Bool
  | [] => true
  | ⟨name, before, value, after⟩ :: members =>
    isSharedName name && before.all Blank.isShared && isShared value && after.all Blank.isShared
      && membersShared members

end

end Value

/-- The text holds nothing but what YAML shares. -/
def Document.isShared (d : Document) : Bool :=
  d.before.all Blank.isShared && d.root.isShared && d.after.all Blank.isShared

end ApiLint.Json
