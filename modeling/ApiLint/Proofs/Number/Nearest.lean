import Mathlib.Algebra.Order.Field.Power
import Mathlib.Tactic.FieldSimp
import Mathlib.Tactic.Linarith
import Mathlib.Tactic.NormNum
import Mathlib.Tactic.Positivity
import Mathlib.Tactic.Ring
import ApiLint.Number.Binary64

/-!
# The nearest number

What rounding gives is the number of the format that is nearest to the ratio, and the one with the
even significand where two are equally near. The ratio is measured in units of the last place of the
result. The numbers whose last place is as coarse, or coarser, are whole multiples of this unit, and
of these the rounded quotient is the nearest. The numbers with a finer last place are all smaller
than the least number that needs the unit, and the ratio is not.
-/

namespace ApiLint.Binary64

/-- The sign as a factor. -/
def signFactor (negative : Bool) : ℚ := if negative then -1 else 1

/-- The rational number that a finite number is. -/
def toRat : Binary64 → ℚ
  | .finite negative m e => signFactor negative * m * 2 ^ e
  | _ => 0

/-- The finite numbers of the format, each in the form in which it is kept. -/
def IsMember : Binary64 → Prop
  | .finite _ m e =>
    m < 2 ^ 53 ∧ minExponent ≤ e ∧ e ≤ maxExponent ∧ (2 ^ 52 ≤ m ∨ e = minExponent)
  | _ => False

/-- Whether the significand of a finite number is even. -/
def hasEvenSignificand : Binary64 → Bool
  | .finite _ m _ => m % 2 == 0
  | _ => false

/-- Whether a number carries the negative sign. -/
def isNegative : Binary64 → Bool
  | .finite negative _ _ => negative
  | .infinite negative => negative
  | .nan => false

/-- The finite number nearest to a rational number and of its sign; of two that are equally near,
the one with the even significand. -/
structure IsNearest (x : Binary64) (q : ℚ) : Prop where
  member : x.IsMember
  sign : x.isNegative = decide (q < 0)
  le : ∀ y : Binary64, y.IsMember → |x.toRat - q| ≤ |y.toRat - q|
  even : ∀ y : Binary64, y.IsMember → y.toRat ≠ x.toRat → |y.toRat - q| = |x.toRat - q| →
    x.hasEvenSignificand = true

/-! ### Rounded quotients -/

/-- A rounded quotient is off by half a unit at most, and by half a unit only if it is even. -/
lemma roundDiv_bound (n : Nat) {d : Nat} (hd : 0 < d) :
    2 * |(roundDiv n d : ℤ) * d - n| ≤ d
      ∧ (2 * |(roundDiv n d : ℤ) * d - n| = d → roundDiv n d % 2 = 0) := by
  have hn : (d : ℤ) * (n / d : ℕ) + (n % d : ℕ) = n := by exact_mod_cast Nat.div_add_mod n d
  have hlt : n % d < d := Nat.mod_lt n hd
  have hdown : ((n / d : ℕ) : ℤ) * d - n = -(n % d : ℕ) := by linarith
  have hup : ((n / d + 1 : ℕ) : ℤ) * d - n = d - (n % d : ℕ) := by
    rw [Nat.cast_add, Nat.cast_one]
    linarith
  -- Below half a unit the quotient is rounded down, above it up, and at half to the even side.
  unfold roundDiv
  dsimp only
  split
  · rw [hdown, abs_neg, abs_of_nonneg (by omega)]
    omega
  · split
    · rw [hup, abs_of_nonneg (by omega)]
      omega
    · rcases Nat.mod_two_eq_zero_or_one (n / d) with heven | hodd
      · rw [heven, Nat.add_zero, hdown, abs_neg, abs_of_nonneg (by omega)]
        omega
      · rw [hodd, hup, abs_of_nonneg (by omega)]
        omega

variable {n d : Nat}

lemma abs_roundDiv_sub (hd : 0 < d) :
    |(roundDiv n d : ℚ) - n / d| ≤ 1 / 2
      ∧ (|(roundDiv n d : ℚ) - n / d| = 1 / 2 → roundDiv n d % 2 = 0) := by
  have hpos : (0 : ℚ) < d := by exact_mod_cast hd
  have hscaled : |(roundDiv n d : ℚ) - n / d| * d = |(roundDiv n d : ℚ) * d - n| := by
    rw [← abs_of_pos hpos, ← abs_mul, abs_of_pos hpos, sub_mul, div_mul_cancel₀ _ hpos.ne']
  obtain ⟨hle, heven⟩ := roundDiv_bound n hd
  have hle' : 2 * |(roundDiv n d : ℚ) * d - n| ≤ d := by exact_mod_cast hle
  constructor
  · rw [← hscaled] at hle'
    nlinarith
  · intro hhalf
    apply heven
    have : 2 * |(roundDiv n d : ℚ) * d - n| = d := by
      rw [← hscaled, hhalf]
      ring
    exact_mod_cast this

/-- No integer is nearer to a quotient than the rounded one, and another is as near only if the
rounded one is even. -/
lemma abs_roundDiv_sub_le (hd : 0 < d) (i : ℤ) :
    |(roundDiv n d : ℚ) - n / d| ≤ |(i : ℚ) - n / d|
      ∧ (i ≠ roundDiv n d → |(i : ℚ) - n / d| = |(roundDiv n d : ℚ) - n / d| →
        roundDiv n d % 2 = 0) := by
  obtain ⟨hhalf, heven⟩ := abs_roundDiv_sub (n := n) hd
  by_cases hi : i = roundDiv n d
  · simp [hi]
  · have hone : (1 : ℚ) ≤ |(i : ℚ) - roundDiv n d| := by
      have : 1 ≤ |i - roundDiv n d| := Int.one_le_abs (sub_ne_zero.mpr hi)
      exact_mod_cast this
    have htriangle := abs_sub_le (i : ℚ) (n / d) (roundDiv n d)
    rw [abs_sub_comm ((n : ℚ) / d)] at htriangle
    exact ⟨by linarith, fun _ heq => heven (by linarith)⟩

/-! ### The unit of the last place -/

lemma twoPow_div_twoPow (e : ℤ) : (twoPow e : ℚ) / twoPow (-e) = 2 ^ e := by
  simp only [twoPow, Nat.pow_eq, Nat.cast_pow, Nat.cast_ofNat]
  rcases le_total 0 e with he | he
  · rw [Int.toNat_of_nonpos (neg_nonpos.mpr he), pow_zero, div_one, ← zpow_natCast,
      Int.toNat_of_nonneg he]
  · rw [Int.toNat_of_nonpos he, pow_zero, one_div, ← zpow_natCast,
      Int.toNat_of_nonneg (neg_nonneg.mpr he), zpow_neg, inv_inv]

lemma twoPow_pos (e : ℤ) : 0 < twoPow e := Nat.two_pow_pos _

/-- The ratio in units of `2 ^ e` is a ratio of naturals again. -/
lemma ratio_in_units (n d : Nat) (e : ℤ) :
    ((n * twoPow (-e) : ℕ) : ℚ) / (d * twoPow e : ℕ) = n / d / 2 ^ e := by
  have hpos : ∀ f : ℤ, (twoPow f : ℚ) ≠ 0 := fun f => by exact_mod_cast (twoPow_pos f).ne'
  rw [← twoPow_div_twoPow e]
  push_cast
  field_simp [hpos e, hpos (-e)]

/-- The logarithm of a ratio is rounded down. -/
lemma logRatio_bounds (hn : 0 < n) (hd : 0 < d) :
    2 ^ logRatio n d ≤ (n / d : ℚ) ∧ (n / d : ℚ) < 2 ^ (logRatio n d + 1) := by
  have hdpos : (0 : ℚ) < d := by exact_mod_cast hd
  have hlog : ∀ {a : Nat}, 0 < a →
      (2 : ℚ) ^ (a.log2 : ℤ) ≤ a ∧ (a : ℚ) < 2 ^ ((a.log2 : ℤ) + 1) := by
    intro a ha
    rw [zpow_natCast, zpow_add_one₀ two_ne_zero, zpow_natCast, ← pow_succ]
    exact ⟨by exact_mod_cast Nat.log2_self_le ha.ne', by exact_mod_cast Nat.lt_log2_self⟩
  obtain ⟨hnlow, hnhigh⟩ := hlog hn
  obtain ⟨hdlow, hdhigh⟩ := hlog hd
  have htwo : ∀ k : ℤ, (0 : ℚ) < 2 ^ k := fun k => zpow_pos two_pos k
  -- The estimate from the two logarithms is right or one too large, and one comparison tells which.
  have hiff : d * twoPow ((n.log2 : ℤ) - d.log2) ≤ n * twoPow (-((n.log2 : ℤ) - d.log2))
      ↔ (2 : ℚ) ^ ((n.log2 : ℤ) - d.log2) ≤ n / d := by
    have hpos : ∀ k : ℤ, (0 : ℚ) < twoPow k := fun k => by exact_mod_cast twoPow_pos k
    rw [← twoPow_div_twoPow, div_le_div_iff₀ (hpos _) hdpos, Nat.mul_comm d]
    exact_mod_cast Iff.rfl
  unfold logRatio
  dsimp only
  split
  · next hle =>
    refine ⟨hiff.mp hle, ?_⟩
    rw [div_lt_iff₀ hdpos]
    calc (n : ℚ) < 2 ^ ((n.log2 : ℤ) + 1) := hnhigh
      _ = 2 ^ ((n.log2 : ℤ) - d.log2 + 1) * 2 ^ (d.log2 : ℤ) := by
        rw [← zpow_add₀ two_ne_zero]
        ring_nf
      _ ≤ 2 ^ ((n.log2 : ℤ) - d.log2 + 1) * d := mul_le_mul_of_nonneg_left hdlow (htwo _).le
  · next hlt =>
    rw [hiff, not_le] at hlt
    refine ⟨?_, by rwa [sub_add_cancel]⟩
    rw [le_div_iff₀ hdpos]
    calc (2 : ℚ) ^ ((n.log2 : ℤ) - d.log2 - 1) * d
        ≤ 2 ^ ((n.log2 : ℤ) - d.log2 - 1) * 2 ^ ((d.log2 : ℤ) + 1) :=
          mul_le_mul_of_nonneg_left hdhigh.le (htwo _).le
      _ = 2 ^ (n.log2 : ℤ) := by
        rw [← zpow_add₀ two_ne_zero]
        ring_nf
      _ ≤ n := hnlow

/-! ### Numbers of the format -/

lemma signFactor_mul_self (negative : Bool) : signFactor negative * signFactor negative = 1 := by
  cases negative <;> simp [signFactor]

lemma abs_signFactor_mul (negative : Bool) (q : ℚ) : |signFactor negative * q| = |q| := by
  cases negative <;> simp [signFactor]

lemma abs_sub_signFactor_mul (negative : Bool) (x v : ℚ) :
    |x - signFactor negative * v| = |signFactor negative * x - v| := by
  rw [← abs_signFactor_mul negative, mul_sub, ← mul_assoc, signFactor_mul_self, one_mul]

/-- A rational number that a unit divides, or that is smaller than all numbers whose last place is
the unit. -/
def FitsUnit (e : ℤ) (z : ℚ) : Prop :=
  (∃ i : ℤ, z = i * 2 ^ e) ∨ (minExponent < e ∧ |z| < 2 ^ (e + 52))

lemma FitsUnit.signed {e : ℤ} {z : ℚ} (h : FitsUnit e z) (negative : Bool) :
    FitsUnit e (signFactor negative * z) := by
  rcases h with ⟨i, rfl⟩ | ⟨he, hsmall⟩
  · refine .inl ⟨if negative then -i else i, ?_⟩
    cases negative <;> simp [signFactor]
  · exact .inr ⟨he, by rwa [abs_signFactor_mul]⟩

/-- Every number of the format fits every unit. -/
lemma IsMember.fitsUnit {y : Binary64} (hy : y.IsMember) (e : ℤ) : FitsUnit e y.toRat := by
  cases y with
  | finite negative m f =>
    obtain ⟨hm, hmin, -, -⟩ := hy
    rw [toRat, mul_assoc]
    apply FitsUnit.signed
    rcases le_or_gt e f with hle | hlt
    · refine .inl ⟨m * 2 ^ (f - e).toNat, ?_⟩
      have hpower : (2 : ℚ) ^ f = 2 ^ (f - e).toNat * 2 ^ e := by
        rw [← zpow_natCast, Int.toNat_of_nonneg (by omega), ← zpow_add₀ two_ne_zero,
          sub_add_cancel]
      rw [hpower]
      push_cast
      ring
    · refine .inr ⟨by omega, ?_⟩
      have hsmall : (m : ℚ) < 2 ^ (53 : ℤ) := by exact_mod_cast hm
      rw [abs_of_nonneg (by positivity)]
      calc (m : ℚ) * 2 ^ f < 2 ^ (53 : ℤ) * 2 ^ f :=
            mul_lt_mul_of_pos_right hsmall (zpow_pos two_pos f)
        _ = 2 ^ (53 + f) := (zpow_add₀ two_ne_zero _ _).symm
        _ ≤ 2 ^ (e + 52) := zpow_le_zpow_right₀ one_le_two (by omega)
  | infinite _ => cases hy
  | nan => cases hy

/-- The multiple of a unit that is nearest to a ratio is nearer than all that fits the unit, if the
ratio is not smaller than the numbers with this last place. -/
lemma nearest_of_fitsUnit {m : Nat} {e : ℤ} {v z : ℚ}
    (hm : ∀ i : ℤ, |(m : ℚ) - v / 2 ^ e| ≤ |(i : ℚ) - v / 2 ^ e|
      ∧ (i ≠ m → |(i : ℚ) - v / 2 ^ e| = |(m : ℚ) - v / 2 ^ e| → m % 2 = 0))
    (hv : minExponent < e → (2 : ℚ) ^ (e + 52) ≤ v) (hz : FitsUnit e z) :
    |m * 2 ^ e - v| ≤ |z - v| ∧ (z ≠ m * 2 ^ e → |z - v| = |m * 2 ^ e - v| → m % 2 = 0) := by
  have hunit : (0 : ℚ) < 2 ^ e := zpow_pos two_pos e
  have hscale : ∀ x : ℚ, |x * 2 ^ e - v| = |x - v / 2 ^ e| * 2 ^ e := by
    intro x
    rw [← abs_of_pos hunit, ← abs_mul, abs_of_pos hunit, sub_mul, div_mul_cancel₀ _ hunit.ne']
  rcases hz with ⟨i, rfl⟩ | ⟨he, hsmall⟩
  · obtain ⟨hle, heven⟩ := hm i
    rw [hscale, hscale]
    refine ⟨mul_le_mul_of_nonneg_right hle hunit.le, ?_⟩
    intro hne heq
    refine heven ?_ (mul_right_cancel₀ hunit.ne' heq)
    rintro rfl
    exact hne (by push_cast; rfl)
  · -- `2 ^ (e + 52)` is a multiple of the unit and lies between the small number and the ratio
    have hborder : |(m : ℚ) * 2 ^ e - v| ≤ |2 ^ (e + 52) - v| := by
      have hmultiple : (2 : ℚ) ^ (e + 52) = ((2 ^ 52 : ℤ) : ℚ) * 2 ^ e := by
        rw [Int.add_comm, zpow_add₀ two_ne_zero]
        norm_cast
      rw [hmultiple, hscale, hscale]
      exact mul_le_mul_of_nonneg_right (hm _).1 hunit.le
    have hlow := hv he
    have hz : z < 2 ^ (e + 52) := (le_abs_self z).trans_lt hsmall
    have hcloser : |(m : ℚ) * 2 ^ e - v| < |z - v| := by
      rw [abs_of_nonpos (by linarith : (2 : ℚ) ^ (e + 52) - v ≤ 0)] at hborder
      rw [abs_of_nonpos (by linarith : z - v ≤ 0)]
      linarith
    exact ⟨hcloser.le, fun _ heq => absurd heq hcloser.ne'⟩

/-! ### Rounding -/

/-- What rounding a positive ratio gives, before a significand that has grown too long is cut. -/
lemma rounded_bounds (hn : 0 < n) (hd : 0 < d) {e : ℤ}
    (he : e = max (logRatio n d - 52) minExponent)
    {m : Nat} (hm : m = roundDiv (n * twoPow (-e)) (d * twoPow e)) :
    m ≤ 2 ^ 53 ∧ (2 ^ 52 ≤ m ∨ e = minExponent)
      ∧ (minExponent < e → (2 : ℚ) ^ (e + 52) ≤ n / d)
      ∧ ∀ i : ℤ, |(m : ℚ) - n / d / 2 ^ e| ≤ |(i : ℚ) - n / d / 2 ^ e|
        ∧ (i ≠ m → |(i : ℚ) - n / d / 2 ^ e| = |(m : ℚ) - n / d / 2 ^ e| → m % 2 = 0) := by
  have hunits : 0 < d * twoPow e := Nat.mul_pos hd (twoPow_pos e)
  have hpos : (0 : ℚ) < 2 ^ e := zpow_pos two_pos e
  -- The unit is the last place of a ratio of that size, so the ratio has 53 digits in front of it.
  obtain ⟨hlow, hhigh⟩ := logRatio_bounds hn hd
  have hnearest := fun i => abs_roundDiv_sub_le (n := n * twoPow (-e)) hunits i
  obtain ⟨hhalf, -⟩ := abs_roundDiv_sub (n := n * twoPow (-e)) hunits
  simp only [ratio_in_units, ← hm] at hnearest hhalf
  obtain ⟨hleft, hright⟩ := abs_le.mp hhalf
  have hlarge : minExponent < e → (2 : ℚ) ^ (e + 52) ≤ n / d := by
    intro hlt
    rwa [show e + 52 = logRatio n d by omega]
  refine ⟨?_, ?_, hlarge, hnearest⟩
  · have hbelow : (n / d : ℚ) / 2 ^ e < 2 ^ 53 := by
      rw [div_lt_iff₀ hpos]
      refine hhigh.trans_le ?_
      rw [← zpow_natCast, ← zpow_add₀ two_ne_zero]
      exact zpow_le_zpow_right₀ one_le_two (by omega)
    have : (m : ℚ) < 2 ^ 53 + 1 := by linarith
    exact Nat.lt_succ_iff.mp (by exact_mod_cast this)
  · rcases (le_max_right (logRatio n d - 52) minExponent).lt_or_eq with hlt | heq
    · have habove : (2 : ℚ) ^ 52 ≤ n / d / 2 ^ e := by
        rw [le_div_iff₀ hpos, ← zpow_natCast, ← zpow_add₀ two_ne_zero]
        simpa [Int.add_comm] using hlarge (he ▸ hlt)
      have : (2 : ℚ) ^ 52 < m + 1 := by linarith
      exact .inl (Nat.lt_succ_iff.mp (by exact_mod_cast this))
    · exact .inr (by omega)

/-- A number of the format that is a positive ratio to the nearest unit is the nearest number. -/
lemma isNearest_of_rounded {x : Binary64} {m : Nat} {e : ℤ} {v : ℚ} {negative : Bool} (hpos : 0 < v)
    (hm : ∀ i : ℤ, |(m : ℚ) - v / 2 ^ e| ≤ |(i : ℚ) - v / 2 ^ e|
      ∧ (i ≠ m → |(i : ℚ) - v / 2 ^ e| = |(m : ℚ) - v / 2 ^ e| → m % 2 = 0))
    (hv : minExponent < e → (2 : ℚ) ^ (e + 52) ≤ v) (hmember : x.IsMember)
    (hvalue : x.toRat = signFactor negative * (m * 2 ^ e)) (hsign : x.isNegative = negative)
    (heven : m % 2 = 0 → x.hasEvenSignificand = true) :
    x.IsNearest (signFactor negative * v) := by
  have hunsigned : signFactor negative * x.toRat = m * 2 ^ e := by
    rw [hvalue, ← mul_assoc, signFactor_mul_self, one_mul]
  have hnearest := fun (y : Binary64) (hy : y.IsMember) =>
    nearest_of_fitsUnit hm hv ((hy.fitsUnit e).signed negative)
  refine ⟨hmember, ?_, ?_, ?_⟩
  · rw [hsign]
    cases negative with
    | true => simp [signFactor, hpos]
    | false => simp [signFactor, hpos.le]
  · intro y hy
    rw [abs_sub_signFactor_mul, abs_sub_signFactor_mul, hunsigned]
    exact (hnearest y hy).1
  · intro y hy hne heq
    rw [abs_sub_signFactor_mul, abs_sub_signFactor_mul, hunsigned] at heq
    refine heven ((hnearest y hy).2 ?_ heq)
    rw [← hunsigned]
    intro hsame
    refine hne (mul_left_cancel₀ ?_ hsame)
    cases negative <;> simp [signFactor]

lemma isNearest_zero : (zero false).IsNearest 0 where
  member := ⟨by norm_num, le_refl _, by decide, .inr rfl⟩
  sign := rfl
  le y _ := by simp [zero, toRat]
  even y _ hne heq := by simp_all [zero, toRat]

/-- A significand and an exponent that stand for a positive ratio to the nearest unit make the
nearest number, unless the exponent is out of range. -/
lemma isNearest_of_significand {m m' : Nat} {e e' : ℤ} {v : ℚ} {negative : Bool} (hpos : 0 < v)
    (hm : ∀ i : ℤ, |(m : ℚ) - v / 2 ^ e| ≤ |(i : ℚ) - v / 2 ^ e|
      ∧ (i ≠ m → |(i : ℚ) - v / 2 ^ e| = |(m : ℚ) - v / 2 ^ e| → m % 2 = 0))
    (hv : minExponent < e → (2 : ℚ) ^ (e + 52) ≤ v) (hshort : m' < 2 ^ 53) (hmin : minExponent ≤ e')
    (hnormal : 2 ^ 52 ≤ m' ∨ e' = minExponent) (hvalue : (m' : ℚ) * 2 ^ e' = m * 2 ^ e)
    (heven : m % 2 = 0 → m' % 2 = 0)
    (hrange : ∀ s, (if maxExponent < e' then .infinite negative else .finite negative m' e')
      ≠ infinite s) :
    (if maxExponent < e' then infinite negative else .finite negative m' e').IsNearest
      (signFactor negative * v) := by
  split at hrange
  · exact absurd rfl (hrange _)
  · next hmax =>
    rw [if_neg hmax]
    apply isNearest_of_rounded hpos hm hv
    · exact ⟨hshort, hmin, by omega, hnormal⟩
    · rw [toRat, mul_assoc, hvalue]
    · rfl
    · exact fun h => by simp [hasEvenSignificand, heven h]

/-- A ratio is rounded to the nearest number, unless it is out of range. -/
lemma isNearest_ofRatio {negative : Bool} (hd : 0 < d) (hsign : negative = true → 0 < n)
    (hrange : ∀ s, ofRatio negative n d ≠ .infinite s) :
    (ofRatio negative n d).IsNearest (signFactor negative * (n / d)) := by
  rcases n.eq_zero_or_pos with rfl | hn
  · obtain rfl : negative = false := by simpa using hsign
    simpa [ofRatio] using isNearest_zero
  · have hpos : (0 : ℚ) < n / d := by positivity
    obtain ⟨e, he⟩ : ∃ e, e = max (logRatio n d - 52) minExponent := ⟨_, rfl⟩
    obtain ⟨m, hm⟩ : ∃ m, m = roundDiv (n * twoPow (-e)) (d * twoPow e) := ⟨_, rfl⟩
    obtain ⟨hle, hlow, hlarge, hnearest⟩ := rounded_bounds hn hd he hm
    have hmin : minExponent ≤ e := he ▸ le_max_right _ _
    rw [ofRatio, if_neg hn.ne'] at hrange ⊢
    simp only [← he, ← hm] at hrange ⊢
    by_cases hcarry : m = twoPow 53
    · -- The significand has grown too long, so it is even and the unit is doubled.
      have hdouble : ((twoPow 52 : ℕ) : ℚ) * 2 ^ (e + 1) = m * 2 ^ e := by
        rw [hcarry, zpow_add_one₀ two_ne_zero, show twoPow 53 = 2 * twoPow 52 from rfl]
        push_cast
        ring
      rw [if_pos hcarry] at hrange ⊢
      dsimp only at hrange ⊢
      exact isNearest_of_significand hpos hnearest hlarge (by decide) (by omega) (.inl (le_refl _))
        hdouble (fun _ => rfl) hrange
    · rw [if_neg hcarry] at hrange ⊢
      exact isNearest_of_significand hpos hnearest hlarge (lt_of_le_of_ne hle hcarry) hmin hlow rfl
        id hrange

/-- An integer in range becomes the nearest number. -/
lemma isNearest_of_ofInt? {k : ℤ} {x : Binary64} (h : ofInt? k = some x) : x.IsNearest k := by
  have hfinite : ∀ s, ofInt k ≠ .infinite s := by
    intro s hs
    rw [ofInt?, hs] at h
    cases h
  obtain rfl : ofInt k = x := by
    unfold ofInt? at h
    split at h
    · cases h
    · exact Option.some.inj h
  have hsigned : signFactor (decide (k < 0)) * (k.natAbs / (1 : ℕ)) = (k : ℚ) := by
    rw [Nat.cast_one, div_one, Nat.cast_natAbs]
    rcases lt_or_ge k 0 with hneg | hpos
    · simp [signFactor, hneg, abs_of_neg hneg]
    · simp [signFactor, not_lt.mpr hpos, abs_of_nonneg hpos]
  rw [← hsigned]
  refine isNearest_ofRatio Nat.one_pos ?_ hfinite
  intro hnegative
  have hlt : k < 0 := of_decide_eq_true hnegative
  omega

/-- An integer in range is below the power of two that is the first out of range. -/
lemma natAbs_lt_of_ofInt? {k : ℤ} {x : Binary64} (h : ofInt? k = some x) :
    k.natAbs < 2 ^ 1024 := by
  by_contra hlarge
  have hpos : 0 < k.natAbs := lt_of_lt_of_le (by positivity) (not_lt.mp hlarge)
  have hlog : 1024 ≤ logRatio k.natAbs 1 := by
    by_contra hlog
    obtain ⟨_, hlt⟩ := logRatio_bounds hpos Nat.one_pos
    have hle : (2 : ℚ) ^ (logRatio k.natAbs 1 + 1) ≤ 2 ^ (1024 : ℤ) :=
      zpow_le_zpow_right₀ one_le_two (by omega)
    rw [Nat.cast_one, div_one] at hlt
    exact hlarge (by exact_mod_cast hlt.trans_le hle)
  have hinfinite : ofInt k = .infinite (decide (k < 0)) := by
    rw [ofInt, ofRatio, if_neg hpos.ne']
    dsimp only
    split
    · rw [if_pos (by simp only [maxExponent, minExponent]; omega)]
    · rw [if_pos (by simp only [maxExponent, minExponent]; omega)]
  rw [ofInt?, hinfinite] at h
  cases h

end ApiLint.Binary64
