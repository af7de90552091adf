import ApiLint.Finding.Basic

/-!
# Contexts

A context is what a rule sees of a walk: where the walk stands, and the collector of its findings.
Entering segments puts a pointer on a stack and leaving takes it off again, so that the current
pointer is the base extended by the segments entered and not yet left.
-/

namespace ApiLint

/-- The base pointer of a walk, the pointers entered below it, the innermost first, and the findings
so far. -/
structure Context where
  base : Pointer := Pointer.root
  entered : List Pointer := []
  collector : Collector := {}
  deriving DecidableEq, Repr, Inhabited

namespace Context

/-- Where the walk stands. -/
def pointer (c : Context) : Pointer := c.entered.headD c.base

/-- Enters segments below the current pointer. -/
def enter (c : Context) (segments : List String) : Context :=
  { c with entered := c.pointer.join segments :: c.entered }

/-- Leaves the pointer entered last. -/
def leave (c : Context) : Context := { c with entered := c.entered.tail }

/-- The finding that a report makes: at the current pointer unless another one is given. -/
def finding (c : Context) (rule message : String) (pointer : Option Pointer := none)
    (kind : FindingKind := .custom) : Finding :=
  ⟨rule, (pointer.filter fun p => !p.isEmpty).getD c.pointer, message, kind⟩

/-- The context after a finding. -/
def push (c : Context) (f : Finding) : Context := { c with collector := c.collector.push f }

@[simp] theorem pointer_enter (c : Context) (segments : List String) :
    (c.enter segments).pointer = c.pointer.join segments := rfl

@[simp] theorem leave_enter (c : Context) (segments : List String) :
    (c.enter segments).leave = c := rfl

@[simp] theorem pointer_push (c : Context) (f : Finding) : (c.push f).pointer = c.pointer := rfl

end Context

end ApiLint
