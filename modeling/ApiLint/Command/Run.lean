import ApiLint.Command.Basic
import ApiLint.Config
import ApiLint.Files.Search
import ApiLint.Lint.Files

/-!
# Running commands

A run selects the rules, searches for documents, lints them and reports the results. It ends with
the status 2 if the arguments or the rules are not understood, with 1 if there is no document or an
error in one of them, and with 0 otherwise. Some errors are not handled: a rule that is listed
twice, a path that the system refuses, and a report that the standard output has no characters for.
-/

namespace ApiLint.Command

/-- An error that a run does not handle. -/
inductive Unhandled
  | rules (error : RuleError)
  | refused (refusal : Refusal)
  | notEncodable (error : EncodingError)
  deriving DecidableEq, Repr

def Unhandled.message : Unhandled → String
  | .rules e => e.message
  | .refused r => r.message
  | .notEncodable e => e.message

/-- How a run ends: with a status, or with an error that it does not handle. -/
inductive Ending
  | status (code : Nat)
  | unhandled (error : Unhandled)
  deriving DecidableEq, Repr

/-- What a run comes to: what it writes, and how it ends. -/
structure Outcome where
  console : Console
  ending : Ending
  deriving DecidableEq, Repr

/-- The status of a run without errors. -/
def success : Ending := .status 0

/-- The status of a run that found errors, or nothing to lint. -/
def failure : Ending := .status 1

/-- The status of a call that was not understood. -/
def misuse : Ending := .status 2

/-- The configuration of a run: a level given by the command replaces that of the environment. -/
def configure (c : Command) (config : Config) : Config :=
  match c.logLevel.filter (!·.isEmpty) with
  | some level => { config with logLevel := level }
  | none => config

/-- The names of the rules of a run; none for all rules. -/
def ruleNames (c : Command) (config : Config) : List String :=
  match c.rules with
  | some text => listedNames text
  | none => config.ruleNames.getD []

/-- The rules of a run, with the log of their selection. -/
def ruleSet (c : Command) (config : Config) : Except RuleError RuleSet × List LogRecord :=
  match c.ruleNames config with
  | [] => (RuleSet.default {}, [])
  | names => RuleSet.ofNames {} names

/-- The paths of a run: the current directory if none is given. -/
def searchPaths (c : Command) : List FilePath :=
  if c.paths.isEmpty then [.ofText "."] else c.paths.map .ofText

/-- What is said at the end of a report for readers. -/
def closing (c : Command) : List String :=
  if c.format = .human then ["Lint succeeded with no errors."] else []

/-- What is printed of results, and the status that they ask for. -/
def reportOf (c : Command) (results : List LintResult) : List String × Ending :=
  let lines := Report.lines c.format results
  if 0 < LintResult.errorCount results then (lines, failure) else (lines ++ c.closing, success)

/-- Reports results. -/
def report (c : Command) (encoding : Encoding) (results : List LintResult) : Outcome :=
  let (lines, ending) := c.reportOf results
  match encoding.writeLines lines with
  | (console, .ok ()) => ⟨console, ending⟩
  | (console, .error e) => ⟨console, .unhandled (.notEncodable e)⟩

/-- Lints the documents at paths with rules. -/
def lint (c : Command) (config : Config) (encoding : Encoding) (tree : FileTree)
    (rules : RuleSet) : Outcome :=
  let search := tree.documents c.searchPaths
  let warnings := search.warnings.map (·.message)
  match search.documents with
  | .error refusal => ⟨Console.lines .err warnings, .unhandled (.refused refusal)⟩
  | .ok [] => ⟨Console.lines .err (warnings ++ ["No API description documents found."]), failure⟩
  | .ok paths =>
    let run := Lint.lintFiles rules tree ⟨config.keepsDocuments, []⟩ paths
    let outcome := c.report encoding run.results
    { outcome with
      console := Console.lines .err warnings
        ++ encoding.pass (config.logging.writeAll run.log) ++ outcome.console }

/-- Runs a command with an encoding of the standard output. -/
def run (c : Command) (config : Config) (encoding : Encoding) (tree : FileTree) : Outcome :=
  let config := c.configure config
  let (rules, log) := c.ruleSet config
  let logged := encoding.pass (config.logging.writeAll log)
  match rules with
  | .ok rules =>
    let outcome := c.lint config encoding tree rules
    { outcome with console := logged ++ outcome.console }
  | .error e@(.unknown ..) => ⟨logged ++ Console.line .err ("Error: " ++ e.message), misuse⟩
  | .error e => ⟨logged, .unhandled (.rules e)⟩

/-- Ends a run without a command. -/
def stop : CommandStop → Outcome
  | .help => ⟨Console.lines .out help, success⟩
  | .error e => ⟨Console.lines .err (usage ++ [s!"{program}: error: {e.message}"]), misuse⟩

/-- Runs the program with arguments. -/
def runArguments (texts : List String) (config : Config) (encoding : Encoding) (tree : FileTree) :
    Outcome :=
  match ofArguments texts with
  | .error s => stop s
  | .ok c => c.run config encoding tree

end ApiLint.Command
