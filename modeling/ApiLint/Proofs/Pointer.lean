import Mathlib.Data.List.Basic
import ApiLint.Pointer

/-!
# Pointers behind pointers

Extending a pointer step by step is extending it once by all segments.
-/

namespace ApiLint.Pointer

lemma isEmpty_push (base : Pointer) (segment : String) : (push base segment).isEmpty = false := by
  simp [push]

lemma isEmpty_join (base : Pointer) (segments : List String) :
    (join base segments).isEmpty = false := by
  rcases List.eq_nil_or_concat segments with rfl | ⟨segments, segment, rfl⟩
  · simp only [join, List.foldl_nil, orRoot]
    split
    · rfl
    · next h => simpa using h
  · rw [List.concat_eq_append, join_append, List.foldl_cons, List.foldl_nil]
    exact isEmpty_push _ _

lemma join_nil {base : Pointer} (h : base.isEmpty = false) : join base [] = base := by
  simp [join, orRoot, h]

@[simp] lemma join_join (base : Pointer) (xs ys : List String) :
    join (join base xs) ys = join base (xs ++ ys) := by
  rw [join_append]
  conv_lhs => rw [join, orRoot, isEmpty_join, if_neg (by simp)]

/-- The pointer with segments behind it, one after the other; without segments the pointer as it
is. -/
def through (base : Pointer) (segments : List String) : Pointer :=
  segments.foldl (fun pointer segment => pointer.join [segment]) base

lemma through_eq_join {base : Pointer} (h : base.isEmpty = false) (segments : List String) :
    through base segments = join base segments := by
  induction segments generalizing base with
  | nil => exact (join_nil h).symm
  | cons segment segments ih =>
    calc through base (segment :: segments) = through (join base [segment]) segments := rfl
      _ = join base (segment :: segments) := by rw [ih (isEmpty_join ..), join_join]; rfl

end ApiLint.Pointer
