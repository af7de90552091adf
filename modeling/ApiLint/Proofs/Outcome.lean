import Mathlib.Tactic.Common

/-!
# Outcomes

A computation comes to a value or to an error. What its errors can be is found out step by step, as
the computation is put together.
-/

namespace ApiLint

/-! ### Outcomes that fail in one way only -/

/-- An outcome that is no error besides those with a property. -/
def OnlyFails {ε α : Type} (P : ε → Prop) (x : Except ε α) : Prop := ∀ e, x = .error e → P e

namespace OnlyFails

variable {ε α β : Type} {P : ε → Prop}

lemma ok (a : α) : OnlyFails P (.ok a : Except ε α) := by
  intro e h
  cases h

lemma error {e : ε} (h : P e) : OnlyFails P (.error e : Except ε α) := by
  intro e' h'
  cases h'
  exact h

lemma bind {x : Except ε α} {f : α → Except ε β} (hx : OnlyFails P x)
    (hf : ∀ a, x = .ok a → OnlyFails P (f a)) : OnlyFails P (x >>= f) := by
  cases x with
  | ok a => exact hf a rfl
  | error e => exact error (hx e rfl)

lemma bind_ok {x : Except ε α} {f : α → Except ε β} {a : α} (hx : x = .ok a)
    (hf : OnlyFails P (f a)) : OnlyFails P (x >>= f) := by
  subst hx
  exact hf

lemma map {x : Except ε α} {f : α → β} (hx : OnlyFails P x) : OnlyFails P (x.map f) := by
  cases x with
  | ok a => exact ok (f a)
  | error e => exact error (hx e rfl)

lemma mapError {ε' : Type} {x : Except ε' α} {f : ε' → ε} (hx : OnlyFails (fun e => P (f e)) x) :
    OnlyFails P (x.mapError f) := by
  cases x with
  | ok a => exact ok a
  | error e => exact error (hx e rfl)

lemma ite {c : Prop} [Decidable c] {x y : Except ε α} (hx : OnlyFails P x) (hy : OnlyFails P y) :
    OnlyFails P (if c then x else y) := by
  split
  · exact hx
  · exact hy

lemma mapM {f : α → Except ε β} (h : ∀ a, OnlyFails P (f a)) (xs : List α) :
    OnlyFails P (xs.mapM f) := by
  induction xs with
  | nil => exact .ok _
  | cons x xs ih =>
    rw [List.mapM_cons]
    exact (h x).bind fun _ _ => ih.bind fun _ _ => .ok _

end OnlyFails

/-! ### Several outcomes -/

section mapM

variable {ε α β γ : Type} {f : α → Except ε β}

/-- Each value that the elements of a list come to is that of one of them. -/
lemma exists_of_mem_mapM {xs : List α} {ys : List β} {y : β} (h : xs.mapM f = .ok ys)
    (hy : y ∈ ys) : ∃ x ∈ xs, f x = .ok y := by
  induction xs generalizing ys with
  | nil =>
    cases h
    exact absurd hy List.not_mem_nil
  | cons x xs ih =>
    rw [List.mapM_cons] at h
    cases hx : f x with
    | error e =>
      rw [hx] at h
      cases h
    | ok y' =>
      cases hxs : xs.mapM f with
      | error e =>
        rw [hx, hxs] at h
        cases h
      | ok ys' =>
        rw [hx, hxs] at h
        cases h
        rcases List.mem_cons.mp hy with rfl | hy
        · exact ⟨x, List.mem_cons_self .., hx⟩
        · obtain ⟨x', hx', heq⟩ := ih hxs hy
          exact ⟨x', List.mem_cons_of_mem _ hx', heq⟩

lemma mapM_map_except (g : β → γ) (xs : List α) :
    xs.mapM (fun x => (f x).map g) = (xs.mapM f).map (List.map g) := by
  induction xs with
  | nil => rfl
  | cons x xs ih =>
    rw [List.mapM_cons, List.mapM_cons, ih]
    cases f x with
    | error e => rfl
    | ok y => cases xs.mapM f <;> rfl

end mapM

/-! ### The error of an outcome -/

/-- The error that an outcome is, if it is one. -/
def errorOf? {ε α : Type} : Except ε α → Option ε
  | .error e => some e
  | .ok _ => none

section errorOf?

variable {ε ε' α β : Type} {x : Except ε α}

@[simp] lemma errorOf?_ok (a : α) : errorOf? (.ok a : Except ε α) = none := rfl

@[simp] lemma errorOf?_error (e : ε) : errorOf? (.error e : Except ε α) = some e := rfl

lemma errorOf?_eq_some_iff {e : ε} : errorOf? x = some e ↔ x = .error e := by
  cases x <;> simp

lemma errorOf?_eq_none_iff : errorOf? x = none ↔ ∃ a, x = .ok a := by
  cases x <;> simp

lemma errorOf?_bind_pure (f : α → β) :
    errorOf? (x >>= fun a => (pure (f a) : Except ε β)) = errorOf? x := by
  cases x <;> rfl

lemma errorOf?_bind {f : α → Except ε β} {e? : Option ε} (hf : ∀ a, errorOf? (f a) = e?) :
    errorOf? (x >>= f) = (errorOf? x).or e? := by
  cases x with
  | error e => rfl
  | ok a => exact hf a

end errorOf?

end ApiLint
