import ApiLint.Log.Streams
import ApiLint.Text.Listed

/-!
# Configuration

What the environment decides about a run: how much is logged and where, whether documents are kept,
and which rules run.
-/

namespace ApiLint

/-- The names of a selection; none if there is no text or no name in it. -/
def selectedNames (text : Option String) : Option (List String) :=
  (text.map listedNames).filter (!·.isEmpty)

/-- The configuration of a run. Levels are kept by name, and unknown names count as the defaults. -/
structure Config where
  logLevel : String := "INFO"
  printLevel : String := "ERROR"
  keepsDocuments : Bool := true
  /-- The names of the rules that run, or none for all. -/
  ruleNames : Option (List String) := none
  deriving DecidableEq, Repr

namespace Config

def logLevelVariable : String := "SCHEMA_LINT_LOG_LEVEL"

def printLevelVariable : String := "SCHEMA_LINT_PRINT_LEVEL"

def keepsDocumentsVariable : String := "SCHEMA_LINT_CACHE_ENABLED"

def ruleNamesVariable : String := "SCHEMA_LINT_RULES"

/-- The variables of the environment that matter. -/
def variableNames : List String :=
  [logLevelVariable, printLevelVariable, keepsDocumentsVariable, ruleNamesVariable]

/-- The configuration that variables of the environment give. -/
def ofEnvironment (valueOf : String → Option String) : Config where
  logLevel := (valueOf logLevelVariable).getD "INFO"
  printLevel := (valueOf printLevelVariable).getD "ERROR"
  keepsDocuments := Text.lower ((valueOf keepsDocumentsVariable).getD "true") == "true"
  ruleNames := selectedNames (valueOf ruleNamesVariable)

/-- Sets up the streams for a configuration. -/
def logging (c : Config) (g : Logging := {}) : Logging :=
  g.configure (LogLevel.ofName (some c.logLevel) LogLevel.info)
    (LogLevel.ofName (some c.printLevel) LogLevel.error)

end Config

end ApiLint
