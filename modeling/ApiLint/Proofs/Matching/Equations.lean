import Mathlib.Tactic.Common
import ApiLint.Matching

/-!
# Matching under a node

Once the schema of a literal leads to a node, what the literal is matched with depends on the node
alone, and for the parts of the literal on the schemas of the node for them.
-/

namespace ApiLint

namespace Raw

lemma isText_iff {r : Raw} {s : String} : r.isText s = true ↔ r = .str s := by
  cases r <;> simp [isText]

lemma isText_eq_false_iff {r : Raw} {s : String} : r.isText s = false ↔ r ≠ .str s := by
  rw [← Bool.not_eq_true, isText_iff]

lemma isNull_iff {r : Raw} : r.isNull = true ↔ r = .null := by
  cases r <;> simp [isNull]

end Raw

namespace Matching

/-- What a literal with parts is matched with: its parts count only where the node asks for the type
of the whole. -/
def underType (node : Node) (type : String) (pointer : Pointer)
    (parts : Except Fault (List Finding)) : Except Fault (List Finding) :=
  if node.type.isNull then .ok []
  else if node.type.isText type then parts
  else .ok [mismatch pointer]

/-- The mismatches of all elements of an array, if a schema governs them. -/
def elementMismatches (g : Graph) (node : Node) (pointer : Pointer) (items : List Literal) :
    Except Fault (List Finding) :=
  match node.items with
  | some child => itemMismatches g child pointer 0 items
  | none => .ok []

variable {g : Graph} {schema : Child} {place : Nat} {node : Node}

lemma mismatches_of_resolve_eq_error {raw : Raw} (h : g.resolve schema = .error raw)
    (pointer : Pointer) (value : Literal) :
    mismatches g schema pointer value = .error (.notASchema raw.kindPath "type") := by
  cases value <;> rw [mismatches, h]

section Resolved

variable (h : g.resolve schema = .ok (place, node)) (pointer : Pointer)
include h

lemma mismatches_scalar (kind : ScalarKind) (payload : Raw) :
    mismatches g schema pointer (.scalar kind payload)
      = if node.type.isNull || acceptsOutright node kind || fitsScalar node kind then .ok []
        else .ok [mismatch pointer] := by
  rw [mismatches, h]

lemma mismatches_array (items : List Literal) :
    mismatches g schema pointer (.array items)
      = underType node "array" pointer (elementMismatches g node pointer items) := by
  rw [mismatches, h]
  rfl

lemma mismatches_object (members : List (String × Literal)) :
    mismatches g schema pointer (.object members)
      = underType node "object" pointer (memberMismatches g node pointer members) := by
  rw [mismatches, h]
  rfl

lemma mismatches_foreign (raw : Raw) :
    mismatches g schema pointer (.foreign raw)
      = if node.type.isNull then .ok [] else .error (.ofForeign raw) := by
  rw [mismatches, h]

end Resolved

section UnderType

variable {type : String}

lemma isNull_of_isText {raw : Raw} {text : String} (h : raw.isText text = true) :
    raw.isNull = false := by
  rw [Raw.isText_iff.mp h]
  rfl

lemma underType_of_isText (h : node.type.isText type = true) (pointer : Pointer)
    (parts : Except Fault (List Finding)) : underType node type pointer parts = parts := by
  rw [underType, isNull_of_isText h, h]
  rfl

lemma underType_of_not_isText (h : node.type.isText type = false) (pointer : Pointer)
    (parts : Except Fault (List Finding)) :
    underType node type pointer parts
      = .ok (if node.type.isNull then [] else [mismatch pointer]) := by
  rw [underType, h]
  cases node.type.isNull <;> rfl

end UnderType

end Matching

end ApiLint
