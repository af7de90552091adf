import ApiLint.Lint.Result
import ApiLint.Text.Json

/-!
# Reports

The results of a run in one of three formats: for readers, as JSON, and as commands of a workflow.
Each report is a list of texts that are written one to a line; a text may itself hold line breaks.
-/

namespace ApiLint

/-- The format of a report. -/
inductive ReportFormat
  | human | json | githubActions
  deriving DecidableEq, Repr, Inhabited

namespace ReportFormat

def all : List ReportFormat := [.human, .json, .githubActions]

def name : ReportFormat → String
  | .human => "human"
  | .json => "json"
  | .githubActions => "github-actions"

/-- The format of a name. -/
def ofName? (name : String) : Option ReportFormat := all.find? (·.name == name)

end ReportFormat

namespace Report

/-! ### For readers -/

/-- The line of an entry behind a colon, as far as it is known. -/
def lineMark (e : LintEntry) : String := (e.position.line.map fun n => ":" ++ writtenInt n).getD ""

/-- An error: its line, its rule in brackets, and its message. -/
def errorLine (e : LintEntry) : String :=
  let rule := (e.rule.map fun name => s!" [{name}]").getD ""
  s!"  ERROR{lineMark e}{rule}: {e.message}"

/-- A warning: its line and its message. -/
def warningLine (e : LintEntry) : String := s!"  WARNING{lineMark e}: {e.message}"

/-- The entries of a file under its name, if there are any. -/
def humanLines (r : LintResult) : List String :=
  if r.errors.isEmpty && r.warnings.isEmpty then []
  else s!"\n{r.file.text}:" :: r.errors.map errorLine ++ r.warnings.map warningLine

/-! ### As JSON -/

/-- The members of an entry that are known. -/
def entryMembers (e : LintEntry) : List (String × JsonValue) :=
  let known (name : String) (value : Option JsonValue) := value.toList.map fun v => (name, v)
  ("message", .text e.message) :: known "rule" (e.rule.map .text)
    ++ known "pointer" (e.pointer.map .text) ++ known "line" (e.position.line.map .int)
    ++ known "column" (e.position.column.map .int)

def entriesJson (es : List LintEntry) : JsonValue := .list (es.map fun e => .object (entryMembers e))

def resultJson (r : LintResult) : JsonValue :=
  .object [("file", .text r.file.text), ("errors", entriesJson r.errors),
    ("warnings", entriesJson r.warnings)]

/-- The counts of a run and its results. -/
def runJson (rs : List LintResult) : JsonValue :=
  .object [("files", .int rs.length), ("errors", .int (LintResult.errorCount rs)),
    ("warnings", .int (LintResult.warningCount rs)), ("results", .list (rs.map resultJson))]

/-! ### As commands of a workflow -/

/-- The command that announces an entry; without a known line it is the first one. -/
def command (kind : String) (file : FilePath) (e : LintEntry) : String :=
  s!"::{kind} file={file.text},line={writtenInt (e.position.line.getD 1)}::{e.message}"

/-- The commands of a file, errors first. -/
def commands (r : LintResult) : List String :=
  r.errors.map (command "error" r.file) ++ r.warnings.map (command "warning" r.file)

/-! ### In a given format -/

/-- The texts of a report. -/
def lines (format : ReportFormat) (rs : List LintResult) : List String :=
  match format with
  | .human => rs.flatMap humanLines
  | .json => [(runJson rs).written]
  | .githubActions => rs.flatMap commands

end Report

end ApiLint
