import ApiLint.Fields
import ApiLint.Files.Path
import ApiLint.Number.Written
import ApiLint.Pointer

/-!
# Source locations

A source map gives places of a document their lines and columns. A place that it does not know has
the location of the nearest place above it that it knows.
-/

namespace ApiLint

/-- A line and a column, counted from one; either may be unknown. -/
structure SourcePosition where
  line : Option Int := none
  column : Option Int := none
  deriving DecidableEq, Repr, Inhabited

namespace SourcePosition

def isKnown (p : SourcePosition) : Bool := p.line.isSome || p.column.isSome

end SourcePosition

/-- The positions of places; a place is named by its pointer without the leading `#`. -/
abbrev SourceMap := Fields SourcePosition

/-- Where something is: in which file, at which place, at which position. -/
structure SourceLocation where
  file : Option FilePath := none
  place : Option String := none
  position : SourcePosition := {}
  deriving DecidableEq, Repr, Inhabited

namespace Pointer

/-- The place that a pointer names in a source map. -/
def place (p : Pointer) : String :=
  match p.toList with
  | '#' :: cs => String.ofList cs
  | _ => p

/-- The beginnings of a text that end before a slash, the shortest first. -/
def beginnings : List Char → List (List Char)
  | [] => []
  | c :: cs =>
    let further := (beginnings cs).map (c :: ·)
    if c = '/' then [] :: further else further

/-- A place and the places above it, from the innermost. -/
def enclosing (place : String) : List String :=
  place :: ((beginnings place.toList).map String.ofList).reverse

end Pointer

namespace SourceMap

/-- The position of the nearest known place. -/
def positionOf (m : SourceMap) (place : String) : SourcePosition :=
  ((Pointer.enclosing place).findSome? fun p =>
    (Fields.find? m p).filter SourcePosition.isKnown).getD {}

/-- The location of a place. It is the place asked for, wherever its position comes from. -/
def locate (m : SourceMap) (place : Option String) : SourceLocation :=
  { place, position := (place.map (positionOf m)).getD {} }

end SourceMap

namespace SourceLocation

/-- The file with its position: line and column, the line alone, or neither. -/
def fileText (file : FilePath) (position : SourcePosition) : String :=
  match position.line, position.column with
  | some line, some column => s!"source= {file.text}:{writtenInt line}:{writtenInt column} "
  | some line, none => s!"source= {file.text}:{writtenInt line} "
  | none, _ => s!"source= {file.text} "

/-- The location behind a message: the file and the place, as far as they are known. -/
def text (l : SourceLocation) : String :=
  let file := l.file.toList.map fun file => fileText file l.position
  let place := (l.place.filter fun p => !p.isEmpty).toList.map fun p => s!"yaml_path={p}"
  match file ++ place with
  | [] => ""
  | parts => " (" ++ " ".intercalate parts ++ ")"

end SourceLocation

end ApiLint
