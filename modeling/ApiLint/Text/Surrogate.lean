/-!
# Halves of surrogate pairs

An escape in a text may give a half of a surrogate pair, which is no character. A text keeps it as a
character that stands for it, one of those that are left to private use. Two halves in a row stay
two.
-/

namespace ApiLint.Text

/-- Whether a number is that of a half of a surrogate pair. -/
def isSurrogate (n : Nat) : Bool := 0xd800 ≤ n && n ≤ 0xdfff

/-- How far the characters that stand for halves are from these. -/
def standInShift : Nat := 0x100000

/-- The character that stands for a half. -/
def standIn (n : Nat) : Char := Char.ofNat (standInShift + n)

/-- The half that a character stands for. -/
def surrogate? (c : Char) : Option Nat :=
  if standInShift ≤ c.toNat && isSurrogate (c.toNat - standInShift) then
    some (c.toNat - standInShift)
  else none

/-- The number of a character, or of the half that it stands for. -/
def codePointOf (c : Char) : Nat := (surrogate? c).getD c.toNat

example : codePointOf (standIn 0xd83d) = 0xd83d ∧ codePointOf 'é' = 0xe9 := by decide

end ApiLint.Text
