import ApiLint.Text.Blank
import ApiLint.Text.Split

/-!
# Lists of names in a text

Names written one behind the other with commas between them, and read back as far as blanks do not
matter.
-/

namespace ApiLint

/-- The parts with a comma and a blank between them. -/
def commaSeparated (parts : List String) : String := ", ".intercalate parts

/-- The names between commas, without the blanks around them; blank names are left out. -/
def listedNames (text : String) : List String :=
  ((Text.split ',' text).map Text.trim).filter (!·.isEmpty)

example : listedNames " a ,, b " = ["a", "b"] ∧ listedNames " , " = [] := by decide +kernel

end ApiLint
