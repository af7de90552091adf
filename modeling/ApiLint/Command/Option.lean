import ApiLint.Lint.Report

/-!
# Options of the command line

Every option has names that start with dashes, and all but one take a value. The usage and the help
list them.
-/

namespace ApiLint

/-- An option of the command line. -/
inductive CommandOption
  | help | format | rules | logLevel
  deriving DecidableEq, Repr

namespace CommandOption

def all : List CommandOption := [.help, .format, .rules, .logLevel]

/-- The names of an option. -/
def names : CommandOption → List String
  | .help => ["-h", "--help"]
  | .format => ["--format"]
  | .rules => ["--rules"]
  | .logLevel => ["--log-level"]

/-- Whether an option takes a value; the others stand alone. -/
def takesValue : CommandOption → Bool
  | .help => false
  | _ => true

/-- The option in messages. -/
def label (o : CommandOption) : String := "/".intercalate o.names

/-- All names with their options, in the order of the options. -/
def named : List (String × CommandOption) :=
  all.flatMap fun o => o.names.map fun name => (name, o)

/-- The option of a whole name. -/
def ofName? (name : String) : Option CommandOption := named.lookup name

/-- The names that start like a text, with their options. -/
def startingWith (text : String) : List (String × CommandOption) :=
  named.filter fun (name, _) => text.toList.isPrefixOf name.toList

end CommandOption

namespace Command

/-- The name of the program in its own messages. -/
def program : String := "schema-lint"

/-- How the program is called. -/
def usage : List String :=
  ["usage: schema-lint [-h] [--format \x7bhuman,json,github-actions\x7d] [--rules RULES]",
    "                   [--log-level LOG_LEVEL]",
    "                   [paths ...]"]

/-- What the program does and what its arguments mean. -/
def help : List String :=
  usage ++ ["",
    "Lint schema defaults, examples, enums and discriminators in API description documents",
    "",
    "positional arguments:",
    "  paths                 File paths or directories to lint (default: current",
    "                        directory)",
    "",
    "options:",
    "  -h, --help            show this help message and exit",
    "  --format \x7bhuman,json,github-actions\x7d",
    "                        Output format (default: human)",
    "  --rules RULES         Comma-separated rule names to run, in order (default:",
    "                        all built-in rules)",
    "  --log-level LOG_LEVEL",
    "                        Logging level for linter diagnostics (default:",
    "                        SCHEMA_LINT_LOG_LEVEL or INFO)"]

end Command

end ApiLint
