import ApiLint.Number.Written
import ApiLint.Text.Quoted

/-!
# JSON text

A JSON value as an indented text in ASCII: characters beyond ASCII are escaped by their UTF-16
units, and a half of a surrogate pair is a unit of its own.
-/

namespace ApiLint

/-- A JSON value, as far as reports need one. -/
inductive JsonValue
  | int (n : Int)
  | text (s : String)
  | list (items : List JsonValue)
  | object (members : List (String × JsonValue))
  deriving Repr

namespace JsonValue

/-- A UTF-16 unit in its escaped form. -/
def escapedUnit (n : Nat) : List Char := '\\' :: 'u' :: Text.hexPadded 4 n

/-- A code point by its UTF-16 units. -/
def escapedPoint (n : Nat) : List Char :=
  if n < 0x10000 then escapedUnit n
  else escapedUnit (0xd800 + (n - 0x10000) / 0x400) ++ escapedUnit (0xdc00 + (n - 0x10000) % 0x400)

/-- A character inside a JSON text. -/
def escapeChar (c : Char) : List Char :=
  if c == '"' || c == '\\' then ['\\', c]
  else if c == '\n' then ['\\', 'n']
  else if c == '\r' then ['\\', 'r']
  else if c == '\t' then ['\\', 't']
  else if c == '\x08' then ['\\', 'b']
  else if c == '\x0c' then ['\\', 'f']
  else if 0x20 ≤ c.toNat && c.toNat < 0x7f then [c]
  else escapedPoint (Text.codePointOf c)

/-- A text between quotes. -/
def quoted (s : String) : String := String.ofList ('"' :: s.toList.flatMap escapeChar ++ ['"'])

/-- A line break with the indentation of a depth. -/
def lineBreak (depth : Nat) : String := String.ofList ('\n' :: List.replicate (2 * depth) ' ')

/-- Parts on lines of their own between brackets; without parts the brackets stand together. -/
def enclosed (opening closing : String) (depth : Nat) (parts : List String) : String :=
  if parts.isEmpty then opening ++ closing
  else opening ++ lineBreak (depth + 1) ++ ("," ++ lineBreak (depth + 1)).intercalate parts
    ++ lineBreak depth ++ closing

mutual

/-- The value at a depth of indentation. -/
def writtenAt (depth : Nat) : JsonValue → String
  | .int n => writtenInt n
  | .text s => quoted s
  | .list items => enclosed "[" "]" depth (writtenItems (depth + 1) items)
  | .object members => enclosed "\x7b" "\x7d" depth (writtenMembers (depth + 1) members)

def writtenItems (depth : Nat) : List JsonValue → List String
  | [] => []
  | item :: items => writtenAt depth item :: writtenItems depth items

def writtenMembers (depth : Nat) : List (String × JsonValue) → List String
  | [] => []
  | (name, value) :: members =>
    (quoted name ++ ": " ++ writtenAt depth value) :: writtenMembers depth members

end

/-- The value as a text. -/
def written (v : JsonValue) : String := v.writtenAt 0

example : quoted "é\n" = "\"\\u00e9\\n\"" ∧ (list []).written = "[]" := by decide +kernel

end JsonValue

end ApiLint
