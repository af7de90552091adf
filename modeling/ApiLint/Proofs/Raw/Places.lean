import Mathlib.Data.List.Basic
import ApiLint.Proofs.Raw.Address

/-!
# Places below a pointer

The place at the end of segments is what they add to a pointer that is not empty: each segment with
its escapes, behind a slash. Different segments lead to different places, and a place that lies
below another one, as the two are written, has further segments.
-/

namespace ApiLint

lemma Text.splitChars_append_cons (separator : Char) (xs ys : List Char) :
    splitChars separator (xs ++ separator :: ys)
      = splitChars separator xs ++ splitChars separator ys := by
  induction xs with
  | nil => simp [splitChars]
  | cons x xs ih =>
    obtain ⟨first, others, hxs⟩ := List.exists_cons_of_ne_nil (splitChars_ne_nil separator xs)
    rw [List.cons_append, splitChars, splitChars, ih, hxs]
    split <;> rfl

namespace Pointer

/-- The place at the end of segments. -/
def placeOf (segments : List String) : String := segments.foldl push ""

lemma toList_placeOf (segments : List String) :
    (placeOf segments).toList
      = (segments.map fun s => escapeChars s.toList).flatMap fun part => '/' :: part := by
  rw [placeOf, toList_foldl_push]
  rfl

@[simp] lemma place_root_join (segments : List String) :
    (root.join segments).place = placeOf segments := by
  have hchars : (root.join segments).toList = '#' :: (placeOf segments).toList := by
    rw [join, toList_foldl_push, toList_placeOf]
    rfl
  rw [place, hchars]
  exact String.ofList_toList

lemma placeOf_injective : Function.Injective placeOf := by
  intro xs ys h
  have hpointers : root.join xs = root.join ys := by
    rw [join, join, ← String.toList_inj, toList_foldl_push, toList_foldl_push, ← toList_placeOf,
      ← toList_placeOf, h]
  simpa using congrArg segments hpointers

lemma placeOf_concat (segments : List String) (segment : String) :
    placeOf (segments ++ [segment]) = push (placeOf segments) segment := by
  simp [placeOf]

/-- The parts of a place between its slashes. -/
lemma splitChars_placeOf (segments : List String) :
    Text.splitChars '/' (placeOf segments).toList
      = [] :: segments.map fun s => escapeChars s.toList := by
  rw [toList_placeOf, Text.splitChars_flatMap]
  intro part hpart
  obtain ⟨s, -, rfl⟩ := List.mem_map.mp hpart
  exact slash_notMem_escapeChars _

lemma escapeChars_toList_injective : Function.Injective fun s : String => escapeChars s.toList := by
  intro s t h
  have hchars : unescapeChars (escapeChars s.toList) = unescapeChars (escapeChars t.toList) :=
    congrArg unescapeChars h
  rw [unescapeChars_escapeChars, unescapeChars_escapeChars] at hchars
  exact String.toList_inj.mp hchars

/-- A place that goes on behind a slash goes on with segments. -/
lemma exists_of_placeOf_eq {xs ys : List String} {rest : String}
    (h : placeOf ys = placeOf xs ++ "/" ++ rest) : ∃ s more, ys = xs ++ s :: more := by
  have hparts : ys.map (fun s => escapeChars s.toList)
      = xs.map (fun s => escapeChars s.toList) ++ Text.splitChars '/' rest.toList := by
    have hsplit := congrArg (fun s : String => Text.splitChars '/' s.toList) h
    simp only [String.toList_append, List.append_assoc] at hsplit
    have hslash : "/".toList ++ rest.toList = '/' :: rest.toList := rfl
    rw [hslash, Text.splitChars_append_cons, splitChars_placeOf, splitChars_placeOf,
      List.cons_append] at hsplit
    exact (List.cons.inj hsplit).2
  obtain ⟨front, back, rfl, hfront, hback⟩ := List.map_eq_append_iff.mp hparts
  obtain rfl : front = xs := escapeChars_toList_injective.list_map hfront
  cases back with
  | nil => exact absurd hback.symm (Text.splitChars_ne_nil _ _)
  | cons s more => exact ⟨s, more, rfl⟩

/-! ### Behind a pointer -/

variable {pointer : Pointer}

lemma join_eq_append (h : pointer.isEmpty = false) (segments : List String) :
    pointer.join segments = pointer ++ placeOf segments := by
  rw [← String.toList_inj, join, orRoot, h, toList_foldl_push, String.toList_append, toList_placeOf]
  rfl

lemma through_eq_append (h : pointer.isEmpty = false) (segments : List String) :
    pointer.through segments = pointer ++ placeOf segments := by
  rw [through_eq_join h, join_eq_append h]

/-- With segments behind it, the empty pointer is the root. -/
lemma through_cons_of_isEmpty (h : pointer.isEmpty = true) (segment : String)
    (segments : List String) :
    pointer.through (segment :: segments) = root.through (segment :: segments) := by
  simp only [through, List.foldl_cons, join, orRoot, h]
  rfl

lemma ne_empty_of_eq_append_slash {p : Pointer} {front rest : String}
    (h : p = front ++ "/" ++ rest) : p.isEmpty = false := by
  subst h
  simp

/-- A pointer that goes on behind a slash goes on with segments. -/
lemma exists_of_through_eq {xs ys : List String} {rest : String}
    (h : pointer.through ys = pointer.through xs ++ "/" ++ rest) :
    ∃ s more, ys = xs ++ s :: more := by
  have hroot : ∀ {base : Pointer}, base.isEmpty = false →
      base.through ys = base.through xs ++ "/" ++ rest → ∃ s more, ys = xs ++ s :: more := by
    intro base hbase heq
    rw [through_eq_append hbase, through_eq_append hbase, String.append_assoc, String.append_assoc,
      String.append_right_inj, ← String.append_assoc] at heq
    exact exists_of_placeOf_eq heq
  cases hempty : pointer.isEmpty with
  | false => exact hroot hempty h
  | true =>
    cases ys with
    | nil => exact absurd (ne_empty_of_eq_append_slash h) (by simp [through, hempty])
    | cons y ys =>
      cases xs with
      | nil => exact ⟨y, ys, rfl⟩
      | cons x xs =>
        rw [through_cons_of_isEmpty hempty, through_cons_of_isEmpty hempty] at h
        exact hroot (by rfl) h

lemma through_injective (pointer : Pointer) : Function.Injective pointer.through := by
  have hroot : ∀ {base : Pointer}, base.isEmpty = false → Function.Injective base.through := by
    intro base hbase xs ys heq
    rw [through_eq_append hbase, through_eq_append hbase, String.append_right_inj] at heq
    exact placeOf_injective heq
  have hne : pointer.isEmpty = true → ∀ s more, pointer ≠ pointer.through (s :: more) := by
    intro hempty s more heq
    rw [through_cons_of_isEmpty hempty, through_eq_join (by rfl)] at heq
    rw [heq, isEmpty_join] at hempty
    cases hempty
  -- Without segments the empty pointer stays empty, which no place is, and with segments it goes on
  -- as the root does.
  cases hempty : pointer.isEmpty with
  | false => exact hroot hempty
  | true =>
    intro xs ys h
    cases xs with
    | nil =>
      cases ys with
      | nil => rfl
      | cons y ys => exact absurd h (hne hempty y ys)
    | cons x xs =>
      cases ys with
      | nil => exact absurd h.symm (hne hempty x xs)
      | cons y ys =>
        rw [through_cons_of_isEmpty hempty, through_cons_of_isEmpty hempty] at h
        exact hroot (by rfl) h

end Pointer

end ApiLint
