import Mathlib.Data.List.Basic
import Mathlib.Data.Nat.Digits.Defs
import ApiLint.Calendar.Written
import ApiLint.Text.DecimalDigit

/-!
# Decimal texts of naturals

The decimal text of a natural denotes the natural. Texts are ordered by their characters from the
left, and naturals with equally many digits are in the order of their texts. A longer one is cut to
the length of a shorter one before they are compared, so `10` stands before `2`.
-/

namespace ApiLint

namespace Text

variable {xs ys xs' ys' : List Char}

/-- Texts of one length in front decide the order, unless they are equal. -/
lemma append_lt_append_iff (h : xs.length = ys.length) :
    xs ++ xs' < ys ++ ys' ↔ xs < ys ∨ xs = ys ∧ xs' < ys' := by
  induction xs generalizing ys with
  | nil =>
    obtain rfl := List.length_eq_zero_iff.mp h.symm
    simp
  | cons x xs ih =>
    obtain ⟨y, ys, rfl⟩ := List.exists_cons_of_length_eq_add_one h.symm
    have hlength : xs.length = ys.length := Nat.succ.inj h
    simp only [List.cons_append, List.cons_lt_cons_iff, ih hlength, List.cons.injEq]
    tauto

end Text

@[simp] lemma toList_writtenNat (n : Nat) : (writtenNat n).toList = Nat.toDigits 10 n := by
  rw [writtenNat, writtenInt, if_neg (by omega), String.toList_ofList]
  rfl

namespace Decimal

variable {i j : Nat}

lemma digitChar_lt_iff : ∀ i < 10, ∀ j < 10, i.digitChar < j.digitChar ↔ i < j := by decide

lemma toDigits_inj : Nat.toDigits 10 i = Nat.toDigits 10 j ↔ i = j := by
  refine ⟨fun h => ?_, congrArg _⟩
  rw [← Nat.ofDigitChars_ten_toDigits (n := i), h, Nat.ofDigitChars_ten_toDigits]

lemma length_toDigits_le_one_iff : (Nat.toDigits 10 j).length ≤ 1 ↔ j < 10 :=
  Nat.length_toDigits_le_iff (by decide) (by decide)

lemma length_toDigits_le (h : i ≤ j) :
    (Nat.toDigits 10 i).length ≤ (Nat.toDigits 10 j).length := by
  rw [Nat.length_toDigits_le_iff (by decide) Nat.length_toDigits_pos]
  exact h.trans_lt ((Nat.length_toDigits_le_iff (by decide) Nat.length_toDigits_pos).mp le_rfl)

/-- The digits of a number of two digits or more are those of its tenth part and its last digit. -/
lemma toDigits_eq_append (h : 10 ≤ j) :
    Nat.toDigits 10 j = Nat.toDigits 10 (j / 10) ++ [(j % 10).digitChar] := by
  rw [Nat.toDigits_eq_if (by decide), if_neg (by omega)]

lemma length_toDigits_div (h : 10 ≤ j) :
    (Nat.toDigits 10 (j / 10)).length + 1 = (Nat.toDigits 10 j).length := by
  rw [toDigits_eq_append h, List.length_append, List.length_singleton]

/-- With equally many digits the texts are in the order of the numbers. -/
lemma toDigits_lt_iff_of_length_eq
    (h : (Nat.toDigits 10 i).length = (Nat.toDigits 10 j).length) :
    Nat.toDigits 10 i < Nat.toDigits 10 j ↔ i < j := by
  -- All digits but the last are compared by induction, and the last one where they agree.
  induction i using Nat.strongRecOn generalizing j with
  | ind i ih =>
    have hten : i < 10 ↔ j < 10 := by
      rw [← length_toDigits_le_one_iff, ← length_toDigits_le_one_iff, h]
    by_cases hi : i < 10
    · have hj := hten.mp hi
      rw [Nat.toDigits_of_lt_base hi, Nat.toDigits_of_lt_base hj, List.cons_lt_cons_iff]
      simp [digitChar_lt_iff i hi j hj]
    · have hj : 10 ≤ j := by omega
      rw [not_lt] at hi
      have hlength : (Nat.toDigits 10 (i / 10)).length = (Nat.toDigits 10 (j / 10)).length := by
        have := length_toDigits_div hi
        have := length_toDigits_div hj
        omega
      rw [toDigits_eq_append hi, toDigits_eq_append hj, Text.append_lt_append_iff hlength,
        ih (i / 10) (by omega) hlength, toDigits_inj, List.cons_lt_cons_iff,
        digitChar_lt_iff _ (Nat.mod_lt _ (by decide)) _ (Nat.mod_lt _ (by decide))]
      simp only [List.not_lt_nil, and_false, or_false]
      omega

/-- The text of a number begins with that of the number without its last digits. -/
lemma toDigits_eq_append_of_length {d : Nat} (h : d < (Nat.toDigits 10 j).length) :
    ∃ rest, rest.length = d ∧ Nat.toDigits 10 j = Nat.toDigits 10 (j / 10 ^ d) ++ rest := by
  induction d generalizing j with
  | zero => exact ⟨[], rfl, by simp⟩
  | succ d ih =>
    have hj : 10 ≤ j := by
      by_contra hlt
      have := length_toDigits_le_one_iff.mpr (by omega : j < 10)
      omega
    have hlength := length_toDigits_div hj
    obtain ⟨rest, rfl, hrest⟩ := ih (j := j / 10) (by omega)
    refine ⟨rest ++ [(j % 10).digitChar], List.length_append, ?_⟩
    rw [toDigits_eq_append hj, hrest, Nat.div_div_eq_div_mul, ← Nat.pow_succ', List.append_assoc]

/-- Of two numbers the text of the smaller one stands first if the number is not above the digits
that the other one begins with, as many as it has itself. -/
lemma toDigits_lt_iff (h : i < j) :
    Nat.toDigits 10 i < Nat.toDigits 10 j
      ↔ i ≤ j / 10 ^ ((Nat.toDigits 10 j).length - (Nat.toDigits 10 i).length) := by
  have hpos : 0 < (Nat.toDigits 10 i).length := Nat.length_toDigits_pos
  have hle := length_toDigits_le h.le
  -- the text of `j` is cut to the length of that of `i`
  generalize hd : (Nat.toDigits 10 j).length - (Nat.toDigits 10 i).length = d
  obtain ⟨rest, hrest, hj⟩ := toDigits_eq_append_of_length (j := j) (d := d) (by omega)
  have hlength : (Nat.toDigits 10 i).length = (Nat.toDigits 10 (j / 10 ^ d)).length := by
    have := congrArg List.length hj
    rw [List.length_append] at this
    omega
  rw [hj, ← List.append_nil (Nat.toDigits 10 i), Text.append_lt_append_iff hlength,
    toDigits_lt_iff_of_length_eq hlength, toDigits_inj]
  cases rest with
  | nil =>
    obtain rfl : d = 0 := hrest.symm
    rw [Nat.pow_zero, Nat.div_one]
    exact iff_of_true (Or.inl h) h.le
  | cons c rest => simp [le_iff_lt_or_eq]

end Decimal

lemma writtenNat_inj {i j : Nat} : writtenNat i = writtenNat j ↔ i = j := by
  rw [← String.toList_inj, toList_writtenNat, toList_writtenNat, Decimal.toDigits_inj]

end ApiLint
