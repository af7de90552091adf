import ApiLint.Context
import ApiLint.Fault
import ApiLint.Schema.Graph

/-!
# Rules

A rule is a named check that is called either on every schema of a walk or on every literal. It acts
on the context of the walk: it may report findings, enter segments for a while, and fail.
-/

namespace ApiLint

/-- What a rule does to a context. A failure keeps what was done before it. -/
abbrev Check := ExceptT Fault (StateM Context)

namespace Check

/-- Reports a finding at the current pointer or at another one. -/
def report (rule message : String) (pointer : Option Pointer := none)
    (kind : FindingKind := .custom) : Check Unit :=
  modify fun c => c.push (c.finding rule message pointer kind)

/-- Reports findings up to the first submission that is none, which is a fault. -/
def extend (submissions : List Submission) : Check Unit := do
  let (collector, refused) := (← get).collector.extend submissions
  modify fun c => { c with collector }
  match refused with
  | none => pure ()
  | some e => throw (.notAFinding e)

/-- Reports what an examination finds at the current pointer. -/
def extendBy (examine : Pointer → Except Fault (List Finding)) : Check Unit := do
  match examine (← get).pointer with
  | .ok findings => extend (findings.map .finding)
  | .error fault => throw fault

/-- Acts below the current pointer, and comes back to it also after a failure. -/
def within {α : Type} (segments : List String) (act : Check α) : Check α :=
  ExceptT.mk do
    modify fun c => c.enter segments
    let outcome ← act.run
    modify fun c => c.leave
    return outcome

end Check

/-- What a rule is called on. -/
inductive VisitKind
  | schema | literal
  deriving DecidableEq, Repr

/-- A check of schemas, given the node and its place in the graph, or of literals, given the literal
as well. -/
inductive RuleCheck
  | schema (check : Graph → Nat → Node → Check Unit)
  | literal (check : Graph → Nat → Node → Literal → Check Unit)

/-- The visits on which a check is called. -/
def RuleCheck.visitKind : RuleCheck → VisitKind
  | .schema _ => .schema
  | .literal _ => .literal

/-- A named check. -/
structure Rule where
  name : String
  check : RuleCheck

namespace Rule

def visitKind (r : Rule) : VisitKind := r.check.visitKind

/-- Calls the rule on a schema; a rule of literals does nothing there. -/
def onSchema (r : Rule) (g : Graph) (place : Nat) (node : Node) : Check Unit :=
  match r.check with
  | .schema check => check g place node
  | .literal _ => pure ()

/-- Calls the rule on a literal; a rule of schemas does nothing there. -/
def onLiteral (r : Rule) (g : Graph) (place : Nat) (node : Node) (value : Literal) : Check Unit :=
  match r.check with
  | .schema _ => pure ()
  | .literal check => check g place node value

end Rule

end ApiLint
