import ApiLint.Text.Printable
import ApiLint.Text.Surrogate

/-!
# Quoted text

A text or a byte string between quotes, with everything that has no visible form escaped, so that
the quoted form is one printable line.
-/

namespace ApiLint.Text

/-- A digit of base sixteen, in small letters. -/
def hexDigit (n : Nat) : Char := (Nat.digitChar n)

/-- A number in base sixteen, padded with zeros to the width; higher digits are dropped. -/
def hexPadded : Nat → Nat → List Char
  | 0, _ => []
  | width + 1, n => hexPadded width (n / 16) ++ [hexDigit (n % 16)]

/-- The quote mark around a text: a single quote, unless the text holds single quotes and no double
quote. -/
def quoteMark (cs : List Char) : Char :=
  if cs.contains '\'' && !cs.contains '"' then '"' else '\''

/-- A code point in its escaped form, as short as it can be. -/
def escapedPoint (n : Nat) : List Char :=
  if n < 0x100 then '\\' :: 'x' :: hexPadded 2 n
  else if n < 0x10000 then '\\' :: 'u' :: hexPadded 4 n
  else '\\' :: 'U' :: hexPadded 8 n

/-- One character inside quotes. -/
def escapeChar (mark c : Char) : List Char :=
  if c == mark || c == '\\' then ['\\', c]
  else if c == '\n' then ['\\', 'n']
  else if c == '\r' then ['\\', 'r']
  else if c == '\t' then ['\\', 't']
  else if isPrintable c then [c]
  else escapedPoint (codePointOf c)

/-- The text between quotes. -/
def quoted (s : String) : String :=
  let cs := s.toList
  let mark := quoteMark cs
  String.ofList (mark :: cs.flatMap (escapeChar mark) ++ [mark])

/-- One byte inside quotes: ASCII as itself, the rest in base sixteen. -/
def escapeByte (mark : Char) (b : UInt8) : List Char :=
  if b.toNat < 0x80 then escapeChar mark (Char.ofNat b.toNat) else '\\' :: 'x' :: hexPadded 2 b.toNat

/-- A byte string between quotes, marked as bytes. -/
def quotedBytes (bs : List UInt8) : String :=
  let mark := quoteMark (bs.map fun b => Char.ofNat b.toNat)
  String.ofList ('b' :: mark :: bs.flatMap (escapeByte mark) ++ [mark])

end ApiLint.Text
