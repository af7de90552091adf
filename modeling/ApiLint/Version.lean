import ApiLint.Number.Reader
import ApiLint.Raw.Text

/-!
# Format versions

A document declares the family of its format and a version in a field at its top. A version is
`MAJOR.MINOR` or `MAJOR.MINOR.PATCH`, with decimal digits of any script, and may carry a suffix
after `-` or `+` that means nothing here. The family says where the schemas of the document are, and
one major version of each family is supported.
-/

namespace ApiLint

/-- The families of description formats. -/
inductive Family
  | openapi | swagger
  deriving DecidableEq, Repr, Inhabited

namespace Family

/-- All families, in the order in which a document is searched for their fields. -/
def all : List Family := [.openapi, .swagger]

/-- The name of the family, which is also its field in a document. -/
def name : Family → String
  | .openapi => "openapi"
  | .swagger => "swagger"

/-- The major version of the family that is supported. -/
def supportedMajor : Family → Nat
  | .openapi => 3
  | .swagger => 2

/-- The keys that lead to the schemas of a document. -/
def schemasPath : Family → List String
  | .openapi => ["components", "schemas"]
  | .swagger => ["definitions"]

end Family

/-- A version of a description format. -/
structure Version where
  family : Family
  major : Nat
  minor : Nat
  patch : Nat := 0
  deriving DecidableEq, Repr, Inhabited

/-- Why a document has no usable version. -/
inductive VersionError
  | rootNotMapping
  | missing
  | notText (family : Family) (raw : Raw)
  | malformed (family : Family) (text : String)
  | unsupported (version : Version)
  /-- A number of the version is too long to be read, or what is declared to be written. -/
  | number (error : NumberError)

namespace Version

/-- The numbers of a version with dots between them. -/
def numbers (v : Version) : String :=
  s!"{writtenNat v.major}.{writtenNat v.minor}.{writtenNat v.patch}"

def text (v : Version) : String := s!"{v.family.name} {v.numbers}"

/-- The keys that lead to the schemas of a document. -/
def schemasPath (v : Version) : List String := v.family.schemasPath

end Version

namespace VersionError

def message : VersionError → String
  | .rootNotMapping => "Document root must be a mapping/object"
  | .missing => "Missing 'openapi' or 'swagger' version field."
  | .notText family raw =>
    s!"'{family.name}' version must be a string, got {raw.kindName}: {raw.inspect}"
  | .malformed family text =>
    s!"Invalid '{family.name}' version string: '{text}'. Expected 'MAJOR.MINOR[.PATCH]'."
  | .unsupported v =>
    s!"Unsupported {v.family.name} version {v.numbers}: this tool supports major version "
      ++ s!"{writtenNat v.family.supportedMajor}."
  | .number error => error.message

/-- Whether the error belongs to the document, so that a linter reports it; any other error ends the
examination. -/
def isReported : VersionError → Bool
  | .number _ => false
  | _ => true

end VersionError

namespace Version

/-- A run of digits in front, if there is one, and the rest. -/
def splitRun? (cs : List Char) : Option (List Nat × List Char) :=
  match Number.spanDigits cs with
  | ([], _) => none
  | (d :: ds, rest) => some (d :: ds, rest)

/-- A point and a run of digits in front, if they are there, and the rest. -/
def splitPointRun? : List Char → Option (List Nat × List Char)
  | '.' :: cs => splitRun? cs
  | _ => none

/-- Whether the characters are nothing, or a suffix: `-` or `+` and then no line feed. -/
def isSuffix : List Char → Bool
  | [] => true
  | c :: cs => (c == '-' || c == '+') && !cs.contains '\n'

/-- The runs of digits of a version: major, minor, and the patch run if there is one. -/
def splitRuns? (cs : List Char) : Option (List Nat × List Nat × List Nat) := do
  let (major, rest) ← splitRun? cs
  let (minor, rest) ← splitPointRun? rest
  let (patch, rest) := (splitPointRun? rest).getD ([], rest)
  if isSuffix rest then some (major, minor, patch) else none

/-- The number of a run of digits, unless the run is too long. -/
def runValue (run : List Nat) : Except VersionError Nat :=
  if NumberError.digitLimit < run.length then .error (.number (.tooManyDigits run.length))
  else .ok (Text.valueOfDigits run)

/-- Reads a version of a family from a text, blanks around it aside. -/
def ofText (family : Family) (text : String) : Except VersionError Version :=
  match splitRuns? (Text.trim text).toList with
  | none => .error (.malformed family text)
  | some (major, minor, patch) => do
    return ⟨family, ← runValue major, ← runValue minor, ← runValue patch⟩

/-- The text of a declared version; a number stands for its decimal text. -/
def declaredText? : Raw → Option String
  | .str s => some s
  | .int n => some (writtenInt n)
  | .float x => some x.written
  | _ => none

/-- Reads a declared version of a family. What is declared is written as a text, or shown in the
error. -/
def ofRaw (family : Family) (raw : Raw) : Except VersionError Version := do
  (Raw.requireTexts [raw]).mapError .number
  match declaredText? raw with
  | some text => ofText family text
  | none => .error (.notText family raw)

/-- Refuses a version whose major version is not the supported one. -/
def requireSupported (v : Version) : Except VersionError Version :=
  if v.major = v.family.supportedMajor then .ok v else .error (.unsupported v)

/-- The version that a document declares. -/
def ofDocument : Raw → Except VersionError Version
  | .dict es =>
    let declared := Family.all.findSome? fun family =>
      (Entries.field? es family.name).map fun raw => (family, raw)
    match declared with
    | some (family, raw) => (ofRaw family raw).bind requireSupported
    | none => .error .missing
  | _ => .error .rootNotMapping

example : (ofText .openapi " 3.0.3-rc+1 ").toOption = some ⟨.openapi, 3, 0, 3⟩ := by decide +kernel
example : (ofText .openapi "3").toOption = none ∧ (ofText .openapi "3.0.").toOption = none := by
  decide +kernel

end Version

end ApiLint
