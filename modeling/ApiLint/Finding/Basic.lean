import ApiLint.Pointer
import ApiLint.Raw.Basic

/-!
# Findings

A finding is what a rule reports about a place in a document. A collector keeps the findings of one
walk in the order in which they were reported; nothing is ever taken out of it.
-/

namespace ApiLint

/-- What a finding is about. -/
inductive FindingKind
  | typeMismatch
  | discriminatorPropertyMissing
  | discriminatorNotRequired
  | custom
  deriving DecidableEq, Repr, Inhabited

/-- The name of a kind of findings. -/
def FindingKind.label : FindingKind → String
  | .typeMismatch => "TypeMismatch"
  | .discriminatorPropertyMissing => "DiscriminatorPropertyMissing"
  | .discriminatorNotRequired => "DiscriminatorNotRequired"
  | .custom => "Custom"

/-- A report of a rule about the place at a pointer. -/
structure Finding where
  rule : String
  pointer : Pointer
  message : String
  kind : FindingKind := .custom
  deriving DecidableEq, Repr, Inhabited

/-- The finding on one line. -/
def Finding.text (f : Finding) : String := s!"[{f.rule}] {f.pointer}: {f.message}"

/-- What a host hands to a collector: a finding, or any other value. -/
inductive Submission
  | finding (finding : Finding)
  | foreign (raw : Raw)
  deriving Inhabited

/-- A value that was handed in as a finding and is none. -/
structure NotAFinding where
  kind : String
  deriving DecidableEq, Repr

def NotAFinding.message (e : NotAFinding) : String := s!"Expected ValidationError, got {e.kind}"

/-- The findings of one walk, in order. -/
structure Collector where
  findings : List Finding := []
  deriving DecidableEq, Repr, Inhabited

namespace Collector

def size (c : Collector) : Nat := c.findings.length

/-- The collector with a finding behind the others. -/
def push (c : Collector) (f : Finding) : Collector := ⟨c.findings ++ [f]⟩

/-- The collector with findings behind the others. -/
def append (c : Collector) (fs : List Finding) : Collector := ⟨c.findings ++ fs⟩

/-- Takes a finding and refuses anything else. -/
def add (c : Collector) : Submission → Except NotAFinding Collector
  | .finding f => .ok (c.push f)
  | .foreign raw => .error ⟨raw.kindName⟩

/-- Takes findings up to the first submission that is none; what was taken before it stays. -/
def extend (c : Collector) : List Submission → Collector × Option NotAFinding
  | [] => (c, none)
  | s :: rest =>
    match c.add s with
    | .ok c => extend c rest
    | .error e => (c, some e)

/-- The findings of one rule. -/
def byRule (c : Collector) (rule : String) : List Finding := c.findings.filter (·.rule == rule)

/-- The collector in messages: its size alone. -/
def describe (c : Collector) : String := s!"ErrorCollector({c.size} error(s))"

@[simp] theorem findings_push (c : Collector) (f : Finding) :
    (c.push f).findings = c.findings ++ [f] := rfl

@[simp] theorem findings_append (c : Collector) (fs : List Finding) :
    (c.append fs).findings = c.findings ++ fs := rfl

theorem extend_findings (c : Collector) (fs : List Finding) :
    c.extend (fs.map .finding) = (c.append fs, none) := by
  induction fs generalizing c with
  | nil => simp [extend, append]
  | cons f fs ih => simp [extend, add, ih, push, append]

end Collector

end ApiLint
