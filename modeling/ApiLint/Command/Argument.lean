import ApiLint.Command.Option
import ApiLint.Text.DecimalDigit
import ApiLint.Text.Listed

/-!
# Arguments of the command line

Each argument is told apart before any of them is used: a plain one, the separator `--` after which
all are plain, an option with or without a value attached by `=`, and what looks like an option and
is none. The beginning of a long name stands for the option if no other name begins so. What starts
with a dash is plain only as a lone dash, as a negative number, or with a blank in it.
-/

namespace ApiLint

/-- Why arguments are refused. -/
inductive CommandError
  | invalidFormat (value : String)
  | missingValue (option : CommandOption)
  /-- A value is attached to an option that takes none. -/
  | ignoredValue (option : CommandOption) (value : String)
  /-- An argument begins several names. -/
  | ambiguous (text : String) (names : List String)
  | unrecognized (texts : List String)
  deriving DecidableEq, Repr

namespace CommandError

/-- A message about an option. -/
def about (o : CommandOption) (text : String) : String := s!"argument {o.label}: {text}"

def message : CommandError → String
  | .invalidFormat value =>
    let choices := commaSeparated (ReportFormat.all.map fun f => Text.quoted f.name)
    about .format s!"invalid choice: {Text.quoted value} (choose from {choices})"
  | .missingValue o => about o "expected one argument"
  | .ignoredValue o value => about o s!"ignored explicit argument {Text.quoted value}"
  | .ambiguous text names => s!"ambiguous option: {text} could match {commaSeparated names}"
  | .unrecognized texts => "unrecognized arguments: " ++ " ".intercalate texts

end CommandError

/-- An argument that has been told apart. -/
inductive CommandArgument
  | plain (text : String)
  | separator
  | option (option : CommandOption) (attached : Option String)
  | unknown (text : String)
  deriving DecidableEq, Repr

namespace CommandArgument

/-- A text cut at its first `=`: what is before it, and what is behind it, if there is one. -/
def cutAtEquals (cs : List Char) : List Char × Option (List Char) :=
  match cs.dropWhile (· != '=') with
  | [] => (cs, none)
  | _ :: value => (cs.takeWhile (· != '='), some value)

/-- Whether a text is a negative number: a dash, digits, and perhaps a point with digits behind it.
A line feed at the end does not matter. -/
def isNegativeNumber : List Char → Bool
  | '-' :: cs =>
    let cs := if cs.getLast? == some '\n' then cs.dropLast else cs
    match cs.dropWhile Text.isDecimalDigit with
    | [] => !cs.isEmpty
    | '.' :: fraction => !fraction.isEmpty && fraction.all Text.isDecimalDigit
    | _ => false
  | _ => false

/-- What is attached to a short name that takes no value, given what follows its letter: a repeated
letter says nothing new, `=` or a dash attaches a value, and any other letter ends the option. -/
def attachedToLetter (letter : Char) : List Char → Option (List Char)
  | [] => none
  | c :: cs =>
    if c = '=' then some cs
    else if c = '-' then some (c :: cs)
    else if c = letter then attachedToLetter letter cs
    else none

/-- The argument that a text with a dash in front is if it is no option. -/
def withoutOption (text : String) : CommandArgument :=
  if isNegativeNumber text.toList || text.toList.contains ' ' then .plain text else .unknown text

/-- The argument that a text with dashes in front is. -/
def ofDashes (text : String) : Except CommandError CommandArgument :=
  let (name, value) := cutAtEquals text.toList
  let attached := value.map String.ofList
  match CommandOption.ofName? text, CommandOption.ofName? (String.ofList name) with
  | some o, _ => .ok (.option o none)
  | none, some o => .ok (.option o attached)
  | none, none =>
    match text.toList with
    | '-' :: '-' :: _ =>
      match CommandOption.startingWith (String.ofList name) with
      | [] => .ok (withoutOption text)
      | [(_, o)] => .ok (.option o attached)
      | several => .error (.ambiguous text (several.map (·.1)))
    | ['-'] => .ok (.plain text)
    | '-' :: 'h' :: rest => .ok (.option .help ((attachedToLetter 'h' rest).map String.ofList))
    | _ => .ok (withoutOption text)

/-- The argument that a text is, in front of a separator. -/
def ofText (text : String) : Except CommandError CommandArgument :=
  match text.toList with
  | '-' :: _ => ofDashes text
  | _ => .ok (.plain text)

/-- The arguments that texts are. -/
def ofTexts : List String → Except CommandError (List CommandArgument)
  | [] => .ok []
  | text :: texts =>
    if text = "--" then .ok (.separator :: texts.map .plain)
    else do return (← ofText text) :: (← ofTexts texts)

end CommandArgument

end ApiLint
