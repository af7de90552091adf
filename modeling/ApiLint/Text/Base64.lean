/-!
# Base 64

Bytes from base 64 text. Characters outside the alphabet are skipped, and so are pad characters
before half a group is read; a group that is padded to its full length ends the text.
-/

namespace ApiLint.Text.Base64

/-- The value of a character of the alphabet. -/
def value? (c : Char) : Option Nat :=
  if 'A' ≤ c ∧ c ≤ 'Z' then some (c.toNat - 'A'.toNat)
  else if 'a' ≤ c ∧ c ≤ 'z' then some (c.toNat - 'a'.toNat + 26)
  else if c.isDigit then some (c.toNat - '0'.toNat + 52)
  else if c = '+' then some 62
  else if c = '/' then some 63
  else none

/-- The byte that a character completes after others of its group, given their count and the bits
that they leave over. The first character of a group completes none. -/
def completed (count left v : Nat) : List UInt8 :=
  match count with
  | 0 => []
  | 1 => [(left * 4 + v / 16).toUInt8]
  | 2 => [(left * 16 + v / 4).toUInt8]
  | _ => [(left * 64 + v).toUInt8]

/-- The bits that are left over after a character. -/
def leftOver (count v : Nat) : Nat :=
  match count with
  | 0 => v
  | 1 => v % 16
  | 2 => v % 4
  | _ => 0

/-- Decodes the characters behind `count` characters of a group with `pads` pad characters after
them. There is no result if the text ends within a group. -/
def decodeFrom (count pads left : Nat) : List Char → Option (List UInt8)
  | [] => if count = 0 then some [] else none
  | c :: cs =>
    if c = '=' then
      if 2 ≤ count then
        if 4 ≤ count + (pads + 1) then some [] else decodeFrom count (pads + 1) left cs
      else decodeFrom count pads left cs
    else
      match value? c with
      | none => decodeFrom count pads left cs
      | some v =>
        (decodeFrom ((count + 1) % 4) 0 (leftOver count v) cs).map (completed count left v ++ ·)

/-- The bytes of a text. -/
def decode (cs : List Char) : Option (List UInt8) := decodeFrom 0 0 0 cs

example : decode "aGk=".toList = some [0x68, 0x69] ∧ decode "a".toList = none := by decide

end ApiLint.Text.Base64
