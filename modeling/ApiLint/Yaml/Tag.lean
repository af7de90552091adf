import ApiLint.Text.Quoted

/-!
# Tags

The tag of a node says what it stands for. A plain scalar without a tag takes the first one whose
form its text has; every other scalar without a tag is a text. A form holds also with one line feed
behind it, which only quoted and block scalars can have.
-/

namespace ApiLint.Yaml

/-- The tags that values can be made of, and the names of all others. -/
inductive Tag
  | null | bool | int | float | str | binary | timestamp
  | seq | map | set | omap | pairs
  | other (name : String)
  deriving DecidableEq, Repr

namespace Tag

/-- What the names of the known tags begin with. -/
def standardHead : String := "tag:yaml.org,2002:"

/-- The known tags with their names behind the standard head. -/
def known : List (String × Tag) :=
  [("null", .null), ("bool", .bool), ("int", .int), ("float", .float), ("str", .str),
    ("binary", .binary), ("timestamp", .timestamp), ("seq", .seq), ("map", .map), ("set", .set),
    ("omap", .omap), ("pairs", .pairs)]

/-- The tag of a full name. -/
def ofName (name : String) : Tag :=
  match known.find? fun k => standardHead ++ k.1 == name with
  | some k => k.2
  | none => .other name

/-- The tag of keys that merge other mappings into theirs. -/
def merge : Tag := .other (standardHead ++ "merge")

/-- The tag of the key of the default value of a mapping. -/
def defaultValue : Tag := .other (standardHead ++ "value")

/-- The tag of texts that are indicators of YAML. -/
def indicator : Tag := .other (standardHead ++ "yaml")

/-! ### Forms of plain scalars -/

/-- A form of characters: what may be left of a text behind a beginning of the form. -/
abbrev Form := List Char → List (List Char)

namespace Form

/-- One character that satisfies a condition. -/
def one (p : Char → Bool) : Form
  | c :: cs => if p c then [cs] else []
  | [] => []

def nothing : Form := fun cs => [cs]

/-- One form behind another. -/
def andThen (f g : Form) : Form := fun cs => (f cs).flatMap g

def either (f g : Form) : Form := fun cs => f cs ++ g cs

def optional (f : Form) : Form := either f nothing

/-- The longest run of characters that satisfy a condition. -/
def run (p : Char → Bool) : Form := fun cs => [cs.dropWhile p]

/-- One or more characters that satisfy a condition, the longest run. -/
def some1 (p : Char → Bool) : Form := andThen (one p) (run p)

def word (w : String) : Form := w.toList.foldr (fun c f => andThen (one (· == c)) f) nothing

def oneOf (ws : List String) : Form := fun cs => ws.flatMap fun w => word w cs

def sequence (fs : List Form) : Form := fs.foldr andThen nothing

def alternatives (fs : List Form) : Form := fun cs => fs.flatMap fun f => f cs

/-- A form repeated once at least, and at most so many times. -/
def repeated (f : Form) : Nat → Form
  | 0 => fun _ => []
  | n + 1 => andThen f (optional (repeated f n))

/-- Whether a text has a form, a line feed at its end aside. -/
def holds (f : Form) (cs : List Char) : Bool :=
  (f cs).any fun rest => rest.isEmpty || rest == ['\n']

end Form

open Form

def isDigitOrLow (c : Char) : Bool := c.isDigit || c == '_'

def sign : Form := optional (one fun c => c == '+' || c == '-')

def digit : Form := one Char.isDigit

/-- A part of a number in base sixty. -/
def sixty : Form :=
  sequence [one (· == ':'), optional (one fun c => '0' ≤ c && c ≤ '5'), digit]

/-- More parts than a text of a number has. -/
def sixtyParts (cs : List Char) : Form := repeated sixty cs.length

def exponent : Form :=
  optional (sequence [one fun c => c == 'e' || c == 'E', one fun c => c == '+' || c == '-',
    some1 Char.isDigit])

def boolForm : Form :=
  oneOf ["yes", "Yes", "YES", "no", "No", "NO", "true", "True", "TRUE", "false", "False", "FALSE",
    "on", "On", "ON", "off", "Off", "OFF"]

def floatForm (cs : List Char) : Form :=
  alternatives [
    sequence [sign, digit, run isDigitOrLow, one (· == '.'), run isDigitOrLow, exponent],
    sequence [one (· == '.'), digit, run isDigitOrLow, exponent],
    sequence [sign, digit, run isDigitOrLow, sixtyParts cs, one (· == '.'), run isDigitOrLow],
    sequence [sign, one (· == '.'), oneOf ["inf", "Inf", "INF"]],
    sequence [one (· == '.'), oneOf ["nan", "NaN", "NAN"]]]

def intForm (cs : List Char) : Form :=
  let low (p : Char → Bool) : Form := some1 fun c => p c || c == '_'
  let nonZero : Form := one fun c => '1' ≤ c && c ≤ '9'
  alternatives [
    sequence [sign, word "0b", low fun c => c == '0' || c == '1'],
    sequence [sign, word "0", low fun c => '0' ≤ c && c ≤ '7'],
    sequence [sign, either (word "0") (andThen nonZero (run isDigitOrLow))],
    sequence [sign, word "0x",
      low fun c => c.isDigit || ('a' ≤ c.toLower && c.toLower ≤ 'f')],
    sequence [sign, nonZero, run isDigitOrLow, sixtyParts cs]]

def nullForm : Form := oneOf ["~", "null", "Null", "NULL"]

def digits (n : Nat) : Form := sequence (List.replicate n digit)

/-- One or two digits. -/
def shortDigits : Form := andThen digit (optional digit)

def zoneForm : Form :=
  either (word "Z")
    (sequence [one fun c => c == '+' || c == '-', shortDigits,
      optional (andThen (word ":") (digits 2))])

def dateForm : Form := sequence [digits 4, word "-", digits 2, word "-", digits 2]

/-- A timestamp with a time of day. -/
def momentForm : Form :=
  sequence [digits 4, word "-", shortDigits, word "-", shortDigits,
    either (one fun c => c == 'T' || c == 't') (some1 fun c => c == ' ' || c == '\t'),
    shortDigits, word ":", digits 2, word ":", digits 2,
    optional (andThen (word ".") (run Char.isDigit)),
    optional (andThen (run fun c => c == ' ' || c == '\t') zoneForm)]

/-- The forms of plain scalars with their tags, in the order in which they are tried. -/
def forms (cs : List Char) : List (Form × Tag) :=
  [(boolForm, .bool), (floatForm cs, .float), (intForm cs, .int), (word "<<", merge),
    (nullForm, .null), (either dateForm momentForm, .timestamp), (word "=", defaultValue),
    (oneOf ["!", "&", "*"], indicator)]

/-- The tag of a plain scalar. Without any text it is null. -/
def ofPlain (text : String) : Tag :=
  match text.toList with
  | [] => .null
  | cs => ((forms cs).find? fun f => f.1.holds cs).elim .str (·.2)

example : ofPlain "1_000" = .int ∧ ofPlain "1e3" = .str ∧ ofPlain "1.5e+3" = .float := by
  decide +kernel
example : ofPlain "on" = .bool ∧ ofPlain "y" = .str ∧ ofPlain "" = .null ∧ ofPlain "<<" = merge := by
  decide +kernel
example : ofPlain "2024-01-02" = .timestamp ∧ ofPlain "2024-1-2" = .str ∧ ofPlain "1:30" = .int := by
  decide +kernel

end Tag

end ApiLint.Yaml
