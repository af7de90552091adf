import ApiLint.Location

/-!
# Lint results

The errors and the warnings of one file, each in the order in which they were added.
-/

namespace ApiLint

/-- An error or a warning: a message, and as far as they are known the rule, the pointer and the
position. -/
structure LintEntry where
  message : String
  rule : Option String := none
  pointer : Option Pointer := none
  position : SourcePosition := {}
  deriving DecidableEq, Repr, Inhabited

/-- What linting a file has brought to light. -/
structure LintResult where
  file : FilePath
  errors : List LintEntry := []
  warnings : List LintEntry := []
  deriving DecidableEq, Repr, Inhabited

namespace LintResult

def addError (r : LintResult) (e : LintEntry) : LintResult := { r with errors := r.errors ++ [e] }

def addErrors (r : LintResult) (es : List LintEntry) : LintResult :=
  { r with errors := r.errors ++ es }

def addWarning (r : LintResult) (e : LintEntry) : LintResult :=
  { r with warnings := r.warnings ++ [e] }

/-- A result without errors is good; warnings do not matter. -/
def ok (r : LintResult) : Bool := r.errors.isEmpty

/-- The number of errors in several results. -/
def errorCount (rs : List LintResult) : Nat := (rs.flatMap fun r => r.errors).length

/-- The number of warnings in several results. -/
def warningCount (rs : List LintResult) : Nat := (rs.flatMap fun r => r.warnings).length

end LintResult

end ApiLint
