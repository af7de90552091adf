import ApiLint.Number.Reader
import ApiLint.Proofs.Number.Decimal

/-!
# Runs of decimal digits

A run of digits may mix the digits of all scripts. It is read up to the first character that is no
digit, and the decimal text of a natural is a run that denotes the natural.
-/

namespace ApiLint

namespace Text

variable {run rest cs : List Char}

/-- A run of digits: one decimal digit of some script or more. -/
def IsRun (run : List Char) : Prop := run ≠ [] ∧ ∀ c ∈ run, isDecimalDigit c = true

instance : DecidablePred IsRun := fun run =>
  decidable_of_iff (run ≠ [] ∧ run.all isDecimalDigit = true) (by rw [IsRun, List.all_eq_true])

/-- Characters that do not go on with a run of digits. -/
def EndRun (rest : List Char) : Prop := ∀ c, rest.head? = some c → isDecimalDigit c = false

/-- The values of the digits of a run. -/
def digitValues (run : List Char) : List Nat := run.filterMap digitValue?

/-- The natural that a run of digits denotes in base ten. -/
def runNumber (run : List Char) : Nat := valueOfDigits (digitValues run)

lemma EndRun.nil : EndRun [] := by
  intro c hc
  cases hc

lemma EndRun.cons {c : Char} (h : isDecimalDigit c = false) : EndRun (c :: rest) := by
  intro d hd
  cases hd
  exact h

lemma digitValues_cons {c : Char} {d : Nat} (h : digitValue? c = some d) :
    digitValues (c :: run) = d :: digitValues run := List.filterMap_cons_some h

lemma length_digitValues (h : ∀ c ∈ run, isDecimalDigit c = true) :
    (digitValues run).length = run.length := by
  induction run with
  | nil => rfl
  | cons c run ih =>
    obtain ⟨d, hd⟩ := Option.isSome_iff_exists.mp (h c (List.mem_cons_self ..))
    rw [digitValues_cons hd, List.length_cons, List.length_cons,
      ih fun c hc => h c (List.mem_cons_of_mem _ hc)]

/-- A run of digits in front is read, and the rest is left. -/
lemma spanDigits_append (hrun : ∀ c ∈ run, isDecimalDigit c = true) (hrest : EndRun rest) :
    Number.spanDigits (run ++ rest) = (digitValues run, rest) := by
  induction run with
  | nil =>
    cases rest with
    | nil => rfl
    | cons c rest =>
      have hc : digitValue? c = none := by simpa [isDecimalDigit] using hrest c rfl
      rw [List.nil_append, Number.spanDigits, hc]
      rfl
  | cons c run ih =>
    obtain ⟨d, hd⟩ := Option.isSome_iff_exists.mp (hrun c (List.mem_cons_self ..))
    rw [List.cons_append, Number.spanDigits, hd, ih fun c hc => hrun c (List.mem_cons_of_mem _ hc),
      digitValues_cons hd]

/-- Characters are the longest run of digits in front, which may be empty, and a rest. -/
lemma exists_run_append (cs : List Char) :
    ∃ run rest, cs = run ++ rest ∧ (∀ c ∈ run, isDecimalDigit c = true) ∧ EndRun rest := by
  induction cs with
  | nil => exact ⟨[], [], rfl, nofun, .nil⟩
  | cons c cs ih =>
    cases hc : isDecimalDigit c with
    | false => exact ⟨[], c :: cs, rfl, nofun, .cons hc⟩
    | true =>
      obtain ⟨run, rest, rfl, hrun, hrest⟩ := ih
      exact ⟨c :: run, rest, rfl, List.forall_mem_cons.mpr ⟨hc, hrun⟩, hrest⟩

/-! ### The decimal text of a natural -/

lemma toNat_of_isDigit {c : Char} (h : c.isDigit = true) :
    48 ≤ c.toNat ∧ c.toNat < 48 + 10 := by
  rw [Char.isDigit, Bool.and_eq_true, decide_eq_true_eq, decide_eq_true_eq] at h
  exact ⟨UInt32.le_iff_toNat_le.mp h.1, Nat.lt_succ_of_le (UInt32.le_iff_toNat_le.mp h.2)⟩

lemma digitValue?_of_isDigit {c : Char} (h : c.isDigit = true) :
    digitValue? c = some (c.toNat - '0'.toNat) := by
  rw [digitValue?, zeroDigits, List.findSome?_cons, if_pos (toNat_of_isDigit h)]
  rfl

lemma isDigit_of_mem_toDigits {n : Nat} {c : Char} (h : c ∈ Nat.toDigits 10 n) :
    c.isDigit = true :=
  Nat.isDigit_of_mem_toDigits (by decide) (by decide) h

lemma isRun_toDigits (n : Nat) : IsRun (Nat.toDigits 10 n) := by
  refine ⟨Nat.toDigits_ne_nil, fun c hc => ?_⟩
  rw [isDecimalDigit, digitValue?_of_isDigit (isDigit_of_mem_toDigits hc)]
  rfl

/-- The decimal text of a natural denotes the natural. -/
lemma runNumber_toDigits (n : Nat) : runNumber (Nat.toDigits 10 n) = n := by
  have hfold : ∀ (cs : List Char) (acc : Nat), (∀ c ∈ cs, c.isDigit = true) →
      (digitValues cs).foldl (fun acc d => acc * 10 + d) acc = Nat.ofDigitChars 10 cs acc := by
    intro cs
    induction cs with
    | nil => exact fun _ _ => rfl
    | cons c cs ih =>
      intro acc hcs
      rw [digitValues_cons (digitValue?_of_isDigit (hcs c (List.mem_cons_self ..))),
        List.foldl_cons, Nat.ofDigitChars_cons, Nat.mul_comm]
      exact ih _ fun c hc => hcs c (List.mem_cons_of_mem _ hc)
  rw [runNumber, valueOfDigits, hfold _ _ fun _ hc => isDigit_of_mem_toDigits hc,
    Nat.ofDigitChars_ten_toDigits]

end Text

end ApiLint
