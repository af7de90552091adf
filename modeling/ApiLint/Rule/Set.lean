import ApiLint.Log.Record
import ApiLint.Raw.Text
import ApiLint.Rule.Builtin

/-!
# Rule sets

A rule set is the ordered list of rules that a walk runs. Sets are values: an operation gives a new
set or an error, and changes no other set. The registry lists the rules that can be selected by name
without further ado.
-/

namespace ApiLint

/-- Why an operation on rules is refused. -/
inductive RuleError
  /-- A rule of the name is in the registry. -/
  | registered (name : String)
  /-- A rule of the name is in the set. -/
  | repeated (name : String)
  /-- No rule of the name can be selected; the names that can be are listed. -/
  | unknown (name : String) (known : List String)
  /-- The set has no rule of the name. -/
  | absent (name : String)
  /-- The set has no rules of the names. -/
  | allAbsent (names : List String)
  deriving DecidableEq, Repr

def RuleError.message : RuleError → String
  | .registered name => s!"Rule '{name}' is already registered"
  | .repeated name => s!"Rule '{name}' is already in the rule set"
  | .unknown name known => s!"Unknown rule '{name}'. Known rules: {commaSeparated known}"
  | .absent name => s!"Rule '{name}' is not in the rule set"
  | .allAbsent names => s!"Rules not in the rule set: {commaSeparated names}"

/-- The rules known by name, in order of registration. -/
structure Registry where
  rules : List Rule := Rule.builtin

/-- Adds a rule to the known ones. -/
def Registry.register (r : Registry) (rule : Rule) : Except RuleError Registry :=
  if r.rules.any (·.name == rule.name) then .error (.registered rule.name)
  else .ok ⟨r.rules ++ [rule]⟩

/-- The rules that a walk runs, in order. -/
structure RuleSet where
  rules : List Rule := []

namespace RuleSet

/-- The set without rules. -/
def empty : RuleSet := {}

def names (s : RuleSet) : List String := s.rules.map (·.name)

def size (s : RuleSet) : Nat := s.rules.length

/-- The rule of a name. -/
def find? (s : RuleSet) (name : String) : Option Rule := s.rules.find? (·.name == name)

/-- Whether the set has a rule of a name. -/
def has (s : RuleSet) (name : String) : Bool := s.rules.any (·.name == name)

/-- The place in a list that an index names: a negative index counts from the end, and an index
beyond either end names that end. -/
def insertionPlace (length : Nat) (index : Int) : Nat :=
  min (if index < 0 then (index + length).toNat else index.toNat) length

/-- Adds a rule of a new name at the end, or in front of the rule at an index. -/
def add (s : RuleSet) (rule : Rule) (index : Option Int := none) : Except RuleError RuleSet :=
  if s.has rule.name then .error (.repeated rule.name)
  else match index with
    | none => .ok ⟨s.rules ++ [rule]⟩
    | some i => .ok ⟨s.rules.insertIdx (insertionPlace s.size i) rule⟩

/-- The set of rules added in order. -/
def ofList (rules : List Rule) : Except RuleError RuleSet :=
  rules.foldlM (fun s rule => s.add rule) empty

/-- The set of all known rules. -/
def default (registry : Registry) : Except RuleError RuleSet := ofList registry.rules

/-- The rules that can be selected: the known ones and further ones, which win over known rules of
their names. -/
def selectable (registry : Registry) (extra : List Rule) : Fields Rule :=
  Fields.merge (Fields.ofList (registry.rules.map fun r => (r.name, r)))
    (extra.map fun r => (r.name, r))

/-- The rules of the given names, in that order. -/
def select (available : Fields Rule) (names : List String) : Except RuleError (List Rule) :=
  names.mapM fun name =>
    match available.find? name with
    | some rule => .ok rule
    | none => .error (.unknown name (sortedNames available.names))

/-- The name of the logger of rule sets. -/
def logger : String := "schema_lint.validation.registry"

/-- The record of a selection. -/
def selectionRecord (rules : List Rule) : LogRecord :=
  .debug logger ("Selected rules: " ++ Raw.inspectNames (rules.map (·.name)))

/-- The set of exactly the named rules, in that order. A selection is logged even if a repeated name
then keeps it from being a set. -/
def ofNames (registry : Registry) (names : List String) (extra : List Rule := []) :
    Except RuleError RuleSet × List LogRecord :=
  match select (selectable registry extra) names with
  | .error e => (.error e, [])
  | .ok rules => (ofList rules, [selectionRecord rules])

/-- The set without the rules of a name. -/
def remove (s : RuleSet) (name : String) : Except RuleError RuleSet :=
  if s.has name then .ok ⟨s.rules.filter (·.name != name)⟩ else .error (.absent name)

/-- The set with the named rules in front, in the order of the names. -/
def reorder (s : RuleSet) (names : List String) : Except RuleError RuleSet :=
  match names.filter fun name => !s.has name with
  | [] => .ok ⟨names.filterMap s.find? ++ s.rules.filter (!names.contains ·.name)⟩
  | missing => .error (.allAbsent missing)

/-- The set built again from its rules. -/
def copy (s : RuleSet) : Except RuleError RuleSet := ofList s.rules

/-- The rules called on one kind of visits. -/
def rulesFor (s : RuleSet) (kind : VisitKind) : List Rule :=
  s.rules.filter (·.visitKind == kind)

/-- The set in messages: the names of its rules. -/
def describe (s : RuleSet) : String := "RuleSet(" ++ Raw.inspectNames s.names ++ ")"

end RuleSet

end ApiLint
