import ApiLint.Text.Case
import ApiLint.Text.Split

/-!
# File paths

A path is a root, which a relative path does not have, and names. Empty names and `.` are left out,
and `..` is a name like any other until a path is looked up.
-/

namespace ApiLint

/-- A path to a file or a directory. -/
structure FilePath where
  root : String := ""
  names : List String := []
  deriving DecidableEq, Repr, Inhabited

namespace FilePath

/-- The root of a path: nothing, one slash, or exactly two. -/
def rootOf : List Char → String
  | '/' :: '/' :: '/' :: _ => "/"
  | '/' :: '/' :: _ => "//"
  | '/' :: _ => "/"
  | _ => ""

/-- Whether a part of a text is a name. -/
def isName (part : String) : Bool := !part.isEmpty && part != "."

/-- Reads a path. -/
def ofText (text : String) : FilePath :=
  ⟨rootOf text.toList, (Text.split '/' text).filter isName⟩

/-- The path as it is written; the empty relative path is written `.`. -/
def text (p : FilePath) : String :=
  if p.root.isEmpty && p.names.isEmpty then "." else p.root ++ "/".intercalate p.names

/-- The path to what has a name in a directory. -/
def child (p : FilePath) (name : String) : FilePath := { p with names := p.names ++ [name] }

/-- The path to what stands under names in a directory. -/
def under (p : FilePath) (names : List String) : FilePath := { p with names := p.names ++ names }

/-- The root, if there is one, and the names. -/
def parts (p : FilePath) : List String := (if p.root.isEmpty then [] else [p.root]) ++ p.names

/-- The order of paths: by their parts. -/
def le (p q : FilePath) : Bool := !q.parts.lex p.parts

/-- The last part of a name from its last dot on. Dots at either end of a name begin no suffix. -/
def suffixOf (name : String) : String :=
  let reversed := name.toList.reverse
  let tail := reversed.takeWhile (· != '.')
  let before := reversed.drop (tail.length + 1)
  if tail.isEmpty || before.isEmpty || tail.length == reversed.length then ""
  else String.ofList ('.' :: tail.reverse)

/-- The suffix of the last name. -/
def suffix (p : FilePath) : String := (p.names.getLast?.map suffixOf).getD ""

/-- Paths in order, each once. -/
def sorted (ps : List FilePath) : List FilePath := ps.eraseDups.mergeSort le

example : (ofText "./a//b").text = "a/b" ∧ (ofText "").text = "." ∧ (ofText "//a/..").text = "//a/.." := by
  decide +kernel
example : suffixOf "a.b.yml" = ".yml" ∧ suffixOf ".yml" = "" ∧ suffixOf "a." = "" := by decide +kernel

end FilePath

end ApiLint
