import ApiLint.Document.Reader
import ApiLint.Lint.Document

/-!
# Linting files

Files are linted one after another with one reader. A fault in one of them becomes an error of that
file and does not stop the others.
-/

namespace ApiLint.Lint

/-- The name of the logger of runs over files. -/
def runLogger : String := "schema_lint.linter"

/-- What linting files comes to. -/
structure Run where
  results : List LintResult := []
  log : List LogRecord := []

/-- The result of a file after a fault. -/
def unexpected (result : LintResult) (message : String) : LintResult × List LogRecord :=
  (result.addError { message := "Unexpected error during linting: " ++ message },
    [.debug runLogger s!"Unexpected error while linting {result.file.text}"])

/-- Lints what reading the file at a path has come to. -/
def lintReading (rules : RuleSet) (path : FilePath) (document : Except ReadError SourceDocument) :
    LintResult × List LogRecord :=
  let result : LintResult := { file := path }
  match document with
  | .error e =>
    if e.isReported then
      (result.addError
        { message := "Failed to load document: " ++ e.message, rule := some structureRule }, [])
    else unexpected result e.message
  | .ok d =>
    let outcome := lintDocument rules d.sourceMap d.raw result
    let (result, records) := match outcome.fault with
      | none => (outcome.result, [])
      | some fault => unexpected outcome.result fault.message
    (result, outcome.log ++ records)

/-- Lints the file at a path. -/
def lintFile (rules : RuleSet) (tree : FileTree) (reader : DocumentReader) (path : FilePath) :
    LintResult × DocumentReader × List LogRecord :=
  let reading := reader.read tree path
  let (result, log) := lintReading rules path reading.document
  (result, reading.reader, reading.log ++ log)

/-- Lints the files at paths, in order. -/
def lintFiles (rules : RuleSet) (tree : FileTree) : DocumentReader → List FilePath → Run
  | _, [] => {}
  | reader, path :: paths =>
    let (result, reader, log) := lintFile rules tree reader path
    let others := lintFiles rules tree reader paths
    ⟨result :: others.results, log ++ others.log⟩

end ApiLint.Lint
