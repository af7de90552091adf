import ApiLint.Document.Layout
import ApiLint.Envelope
import ApiLint.Lint.Result
import ApiLint.Walk

/-!
# Linting a document

The envelope of a document is examined first, and a document with an issue there is not looked into;
if the examination fails, so does the linting.
Then its schemas are built, and every component that is no alias is walked on its own, up to the
components that it refers to. So every schema in line is walked once.
-/

namespace ApiLint

/-- What ends the linting of a document without an entry in the result. -/
inductive LintFault
  | envelope (error : NumberError)
  | load (error : LoadError)
  | walk (fault : Fault)

def LintFault.message : LintFault → String
  | .envelope error => error.message
  | .load error => error.message
  | .walk fault => fault.message

namespace Lint

/-- The name of the logger of linters. -/
def logger : String := "schema_lint.linter.schema_linter"

/-- The rule of entries about a document as a whole. -/
def structureRule : String := "DocumentStructure"

/-- The rule of entries about graphs that cannot be walked. -/
def graphRule : String := "InvalidGraph"

/-- An entry about the place at a pointer: its message names the file and the place, and the
position is that of the nearest place that the source map knows. -/
def entryAt (file : FilePath) (places : SourceMap) (message rule : String) (pointer : Pointer) :
    LintEntry :=
  let location := { places.locate (some pointer.place) with file := some file }
  ⟨message ++ location.text, some rule, some pointer, location.position⟩

/-- What a step of linting comes to: the result, the log, and the fault that ended the linting. -/
structure Outcome where
  result : LintResult
  log : List LogRecord := []
  fault : Option LintFault := none

/-- The entries of the issues of an envelope. -/
def issueEntries (file : FilePath) (places : SourceMap) (issues : List EnvelopeIssue) :
    List LintEntry :=
  issues.map fun i => entryAt file places i.message structureRule i.pointer

/-- Walks a component that is no alias. A graph that cannot be walked is an error. -/
def walkComponent (rules : RuleSet) (places : SourceMap) (g : Graph) (place : Nat) (name : String)
    (component : Component) (result : LintResult) : Outcome :=
  let outcome := (Walker.mk rules component.pointer true).walk g (.node place)
  match outcome.findings with
  | .error (.invalidGraph e) =>
    let pointer := (e.pointer.filter fun p => !p.isEmpty).getD component.pointer
    ⟨result.addError (entryAt result.file places e.message graphRule pointer), outcome.log, none⟩
  | .error fault => ⟨result, outcome.log, some (.walk fault)⟩
  | .ok findings =>
    let entries := findings.map fun f => entryAt result.file places f.message f.rule f.pointer
    let record := LogRecord.debug logger s!"Schema '{name}': {findings.length} finding(s)"
    ⟨result.addErrors entries, outcome.log ++ [record], none⟩

/-- Walks components in order, the first of which has the given place, up to a fault. An alias is
left out: what it refers to is walked under its own name. -/
def walkComponents (rules : RuleSet) (places : SourceMap) (d : LoadedDocument) (g : Graph)
    (place : Nat) : List (String × Component) → LintResult → Outcome
  | [], result => ⟨result, [], none⟩
  | (name, component) :: rest, result =>
    let here : Outcome :=
      match Fields.find? d.aliases name with
      | some target =>
        ⟨result, [.debug logger s!"Schema '{name}' aliases '{target}'; not walked"], none⟩
      | none => walkComponent rules places g place name component result
    match here.fault with
    | some _ => here
    | none =>
      let others := walkComponents rules places d g (place + 1) rest here.result
      { others with log := here.log ++ others.log }

/-- The warning about a document without component schemas. -/
def noSchemas (version : Version) : LintEntry :=
  { message := "No component schemas found under '" ++ "/".intercalate version.schemasPath ++ "'"
    rule := some structureRule }

/-- Lints the schemas of a loaded document. -/
def lintLoaded (rules : RuleSet) (places : SourceMap) (d : LoadedDocument) (result : LintResult) :
    Outcome :=
  let outcome : Outcome :=
    if d.components.isEmpty then ⟨result.addWarning (noSchemas d.version), [], none⟩
    else walkComponents rules places d d.graph 0 d.components result
  { outcome with log := d.record :: outcome.log }

/-- Lints a document, whose entries are added to a result. -/
def lintDocument (rules : RuleSet) (places : SourceMap) (document : Raw) (result : LintResult) :
    Outcome :=
  match Envelope.issues document with
  | .error e => ⟨result, [], some (.envelope e)⟩
  | .ok (i :: is) => ⟨result.addErrors (issueEntries result.file places (i :: is)), [], none⟩
  | .ok [] =>
    match LoadedDocument.ofRaw document with
    | .ok d => lintLoaded rules places d result
    | .error e =>
      if e.isReported then
        ⟨result.addError { message := e.message, rule := some structureRule }, [], none⟩
      else ⟨result, [], some (.load e)⟩

end Lint

end ApiLint
