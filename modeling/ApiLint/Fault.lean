import ApiLint.Raw.Text
import ApiLint.Pointer
import ApiLint.Finding.Basic

/-!
# Faults

What ends a walk before its time. A graph that cannot be walked is one fault; the others arise in
rules that are handed values of the wrong kind, or in rules of a host.
-/

namespace ApiLint

/-- What keeps a graph from being walked. -/
inductive GraphDefect
  /-- The root is no schema. -/
  | root (kind : String)
  /-- A property has no schema. -/
  | property (name : String)
  /-- The items or the additional properties are no schema. -/
  | slot (keyword kind : String)
  /-- A member of a composition is no schema. -/
  | member (keyword : String) (index : Nat)
  /-- A raw value stands for a literal. -/
  | literal (raw : Raw)
  /-- A rule of a host refuses the graph. -/
  | refused (reason : String)

def GraphDefect.message : GraphDefect → String
  | .root kind => s!"Expected a schema node, got {kind}"
  | .property name => s!"Property '{name}' has no schema"
  | .slot keyword kind => s!"'{keyword}' must be a schema node, got {kind}"
  | .member keyword index => s!"{keyword} member #{index} has no schema"
  | .literal raw => s!"Literal is not a value: {raw.inspect}"
  | .refused reason => reason

/-- Whether the message of a defect can be written: a raw value is shown in it. -/
def GraphDefect.isWritable : GraphDefect → Bool
  | .literal raw => raw.isWritable
  | _ => true

/-- A defect of a graph and where it is. -/
structure InvalidGraph where
  defect : GraphDefect
  pointer : Option Pointer

/-- The message of the defect, with the pointer behind it unless that is empty. -/
def InvalidGraph.message (e : InvalidGraph) : String :=
  match e.pointer.filter fun p => !p.isEmpty with
  | some p => s!"{e.defect.message} (pointer={p})"
  | none => e.defect.message

/-- What ends a walk before its time. -/
inductive Fault
  | invalidGraph (error : InvalidGraph)
  /-- A rule reported something that is no finding. -/
  | notAFinding (error : NotAFinding)
  /-- A value inside a literal is none. -/
  | notALiteral (raw : Raw)
  /-- A part of a schema was asked of a value that is none. -/
  | notASchema (kind part : String)
  /-- Only `oneOf` and `anyOf` have alternatives to discriminate. -/
  | nothingToDiscriminate (keyword : String)
  /-- A number that a message shows cannot be written. -/
  | number (error : NumberError)
  /-- A rule of a host failed. -/
  | host (reason : String)

def Fault.message : Fault → String
  | .invalidGraph e => e.message
  | .notAFinding e => e.message
  | .notALiteral raw => s!"Not a literal value: {raw.inspect}"
  | .notASchema kind part => s!"'{kind}' object has no attribute '{part}'"
  | .nothingToDiscriminate keyword =>
    s!"Discriminator checks apply to oneOf/anyOf only, got {keyword}"
  | .number e => e.message
  | .host reason => reason

/-- The fault of a graph with a defect at a pointer. -/
def GraphDefect.faultAt (defect : GraphDefect) (pointer : Pointer) : Fault :=
  if defect.isWritable then .invalidGraph ⟨defect, some pointer⟩ else .number .tooLongToWrite

/-- The fault of a raw value that is found inside a literal. -/
def Fault.ofForeign (raw : Raw) : Fault :=
  if raw.isWritable then .notALiteral raw else .number .tooLongToWrite

end ApiLint
