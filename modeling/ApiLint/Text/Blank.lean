/-!
# Blank characters

Which characters count as white space at the ends of a text, and the text with them removed.
-/

namespace ApiLint.Text

/-- White space of any script: the ASCII controls and separators that space text, and every
Unicode separator of words, lines and paragraphs. -/
def isBlank (c : Char) : Bool :=
  let n := c.toNat
  (0x09 ≤ n && n ≤ 0x0d) || (0x1c ≤ n && n ≤ 0x20) || n == 0x85 || n == 0xa0 || n == 0x1680
    || (0x2000 ≤ n && n ≤ 0x200a) || n == 0x2028 || n == 0x2029 || n == 0x202f || n == 0x205f
    || n == 0x3000

/-- The characters without the blank ones in front. -/
def dropBlank (cs : List Char) : List Char := cs.dropWhile isBlank

/-- The characters without the blank ones at either end. -/
def stripBlank (cs : List Char) : List Char := (dropBlank (dropBlank cs).reverse).reverse

/-- The text without the blank characters at either end. -/
def trim (s : String) : String := String.ofList (stripBlank s.toList)

@[simp] theorem dropBlank_nil : dropBlank [] = [] := rfl

theorem dropBlank_of_not_isBlank {c : Char} {cs : List Char} (h : isBlank c = false) :
    dropBlank (c :: cs) = c :: cs := by
  simp [dropBlank, h]

end ApiLint.Text
