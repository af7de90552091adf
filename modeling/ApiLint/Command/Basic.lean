import ApiLint.Command.Argument

/-!
# Commands

What the arguments ask for. Of an option that is given twice the last value counts. Paths are the
plain arguments of the first run of neighbours that belong to no option; plain arguments behind a
later option are not understood.
-/

namespace ApiLint

/-- A run of the program: the paths to lint, the format of the report, the rules as they were
listed, and the level of the log. -/
structure Command where
  paths : List String := []
  format : ReportFormat := .human
  rules : Option String := none
  logLevel : Option String := none
  deriving DecidableEq, Repr

/-- What ends the reading of arguments without a command: a request for help, or an error. -/
inductive CommandStop
  | help
  | error (error : CommandError)
  deriving DecidableEq, Repr

namespace Command

/-- Where the reading stands with paths: before the first of them, at them, or behind them. -/
inductive PathReading
  | before | at | behind
  deriving DecidableEq, Repr

/-- What has been read: the command so far, where the paths stand, and what was not understood. -/
structure Reading where
  command : Command := {}
  paths : PathReading := .before
  leftovers : List String := []
  deriving DecidableEq, Repr

namespace Reading

/-- Takes a plain text as a path, unless the paths are over. -/
def addPath (r : Reading) (text : String) : Reading :=
  match r.paths with
  | .behind => { r with leftovers := r.leftovers ++ [text] }
  | _ => { r with command.paths := r.command.paths ++ [text], paths := .at }

/-- Takes a separator, which begins the paths or goes on with them. -/
def addSeparator (r : Reading) : Reading :=
  match r.paths with
  | .behind => { r with leftovers := r.leftovers ++ ["--"] }
  | _ => { r with paths := .at }

/-- Ends the paths if they have begun. -/
def endPaths (r : Reading) : Reading :=
  match r.paths with
  | .at => { r with paths := .behind }
  | _ => r

def addLeftover (r : Reading) (text : String) : Reading :=
  { r with leftovers := r.leftovers ++ [text] }

/-- Gives an option a value. -/
def setValue (r : Reading) (o : CommandOption) (value : String) : Except CommandStop Reading :=
  match o with
  | .help => .error .help
  | .rules => .ok { r with command.rules := some value }
  | .logLevel => .ok { r with command.logLevel := some value }
  | .format =>
    match ReportFormat.ofName? value with
    | some format => .ok { r with command.format := format }
    | none => .error (.error (.invalidFormat value))

end Reading

/-- Reads arguments after those that have been read. -/
def readFrom (r : Reading) : List CommandArgument → Except CommandStop Reading
  | [] => .ok r
  | .plain text :: rest => readFrom (r.addPath text) rest
  | .separator :: rest => readFrom r.addSeparator rest
  | .unknown text :: rest => readFrom (r.endPaths.addLeftover text) rest
  | .option o (some value) :: rest =>
    if o.takesValue then do readFrom (← r.endPaths.setValue o value) rest
    else .error (.error (.ignoredValue o value))
  | .option o none :: .plain value :: rest =>
    if o.takesValue then do readFrom (← r.endPaths.setValue o value) rest else .error .help
  | .option o none :: _ =>
    .error (if o.takesValue then .error (.missingValue o) else .help)

/-- The command that texts are. -/
def ofArguments (texts : List String) : Except CommandStop Command := do
  let arguments ← (CommandArgument.ofTexts texts).mapError CommandStop.error
  let r ← readFrom {} arguments
  if r.leftovers.isEmpty then return r.command else throw (.error (.unrecognized r.leftovers))

end Command

end ApiLint
