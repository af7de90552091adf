import ApiLint.Proofs.Json.Numerals
import ApiLint.Yaml.ScalarValue

/-!
# The values of JSON numbers

A number of JSON that YAML shares is read as the number that it denotes.
-/

namespace ApiLint.Json

open Yaml

/-! ### Integers -/

lemma Digit.splitSign_char (d : Digit) (cs : List Char) :
    Number.splitSign (d.char :: cs) = (false, d.char :: cs) := by
  have hsigns : d.char ≠ '-' ∧ d.char ≠ '+' := by
    revert d
    decide
  unfold Number.splitSign
  split
  · next heq => exact absurd (List.cons.inj heq).1 hsigns.1
  · next heq => exact absurd (List.cons.inj heq).1 hsigns.2
  · rfl

lemma dropWhile_eq_self {p : Char → Bool} {cs : List Char} (h : ∀ c ∈ cs, p c = false) :
    cs.dropWhile p = cs := by
  cases cs with
  | nil => rfl
  | cons c cs =>
    exact List.dropWhile_cons_of_neg (by rw [h c (List.mem_cons_self ..)]; exact Bool.false_ne_true)

lemma strip_numeric {cs : List Char} (h : cs ⊆ numericChars) : Number.strip cs = cs := by
  have hblank : ∀ c ∈ cs, Number.isBlank c = false := fun c hc =>
    (Bool.not_eq_true' _).mp
      (forall_numeric (p := fun c => !Number.isBlank c) (by decide) h c hc)
  rw [Number.strip, dropWhile_eq_self hblank,
    dropWhile_eq_self fun c hc => hblank c (List.mem_reverse.mp hc), List.reverse_reverse]

/-- The sign is taken off. -/
lemma unsigned_numeric (negative : Bool) {d : Digit} {cs : List Char}
    (h : d.char :: cs ⊆ numericChars) :
    ScalarValue.unsigned (signChars negative ++ d.char :: cs) = .ok (negative, d.char :: cs) := by
  have hlow : ∀ c ∈ d.char :: cs, (c != '_') = true := forall_numeric (by decide) h
  have hfilter : (signChars negative ++ d.char :: cs).filter (· != '_')
      = signChars negative ++ d.char :: cs := by
    refine List.filter_eq_self.mpr fun c hc => ?_
    rcases List.mem_append.mp hc with hc | hc
    · cases negative with
      | true => rw [List.mem_singleton.mp hc]; rfl
      | false => cases hc
    · exact hlow c hc
  rw [ScalarValue.unsigned, hfilter]
  cases negative with
  | true => rfl
  | false =>
    change Except.ok (Number.splitSign (d.char :: cs)) = _
    rw [d.splitSign_char]

lemma contains_colon {cs : List Char} (h : cs ⊆ numericChars) : cs.contains ':' = false := by
  rw [Bool.eq_false_iff, ne_eq, List.contains_iff_mem]
  intro hmem
  exact absurd (h hmem) (by decide)

lemma Digit.char_ne_zero {d : Digit} (h : d ≠ 0) : d.char ≠ '0' := by
  revert d
  decide

/-- Digits are read as their number. -/
lemma integerIn_digits {d : Digit} {ds : List Digit} (hzero : d ≠ 0)
    (hlimit : (d :: ds).length ≤ NumberError.digitLimit) :
    ScalarValue.integerIn 10 (digitChars (d :: ds)) = .ok (valueOf (d :: ds)) := by
  have hmark : Number.dropBaseMark 10 (digitChars (d :: ds)) = digitChars (d :: ds) := by
    unfold Number.dropBaseMark
    split
    · next heq => exact absurd (List.cons.inj heq).1 (Digit.char_ne_zero hzero)
    · rfl
  rw [ScalarValue.integerIn, Number.readInteger, String.toList_ofList,
    strip_numeric (digitChars_subset _)]
  rw [digitChars_cons, d.splitSign_char, ← digitChars_cons]
  dsimp only
  rw [hmark, digitsIn?_digitChars]
  dsimp only
  have hlength : decide (NumberError.digitLimit < ((d :: ds).map Fin.val).length) = false :=
    decide_eq_false (by rw [List.length_map]; omega)
  rw [hlength, Bool.and_false, if_neg Bool.false_ne_true, if_neg Bool.false_ne_true]
  rfl

/-- The digits in front of the point are an integer of their own. -/
lemma magnitude_whole {w : Whole} (hlimit : w.digits.length ≤ NumberError.digitLimit) :
    ScalarValue.magnitude (digitChars w.digits) = .ok (valueOf w.digits) := by
  cases w with
  | zero => rfl
  | positive first others =>
    have hzero : first.succ ≠ 0 := Fin.succ_ne_zero first
    have hhead : ∀ cs, digitChars (first.succ :: others) ≠ '0' :: cs :=
      fun cs heq => absurd (List.cons.inj heq).1 (Digit.char_ne_zero hzero)
    rw [Whole.digits]
    unfold ScalarValue.magnitude
    split
    · next heq => cases heq
    · next heq => exact absurd heq (hhead _)
    · next heq => exact absurd heq (hhead _)
    · next heq => exact absurd heq (hhead _)
    · next heq => exact absurd heq (hhead _)
    · rw [contains_colon (digitChars_subset _), if_neg Bool.false_ne_true]
      exact integerIn_digits hzero hlimit

lemma Numeral.chars_integer {n : Numeral} (hfraction : n.fraction = none)
    (hexponent : n.exponent = none) :
    n.chars = signChars n.negative ++ digitChars n.whole.digits := by
  rw [Numeral.chars, hfraction, hexponent]
  exact congrArg _ (List.append_nil _)

/-- An integer is read as the number that it denotes. -/
lemma integer_eq {n : Numeral} (hfraction : n.fraction = none) (hexponent : n.exponent = none)
    (h : n.isShared = true) : ScalarValue.integer (String.ofList n.chars) = .ok n.raw := by
  have hlimit : n.whole.digits.length ≤ NumberError.digitLimit := by
    rw [Numeral.isShared, hfraction, hexponent] at h
    exact of_decide_eq_true h
  obtain ⟨d, ds, hwhole⟩ := n.whole.exists_digits
  have hunsigned : ScalarValue.unsigned n.chars = .ok (n.negative, digitChars n.whole.digits) := by
    rw [Numeral.chars_integer hfraction hexponent, hwhole]
    exact unsigned_numeric n.negative (digitChars_subset (d :: ds))
  rw [ScalarValue.integer, String.toList_ofList, hunsigned, Numeral.raw, hfraction, hexponent]
  change (ScalarValue.magnitude (digitChars n.whole.digits) >>= _) = _
  rw [magnitude_whole hlimit]
  rfl

/-! ### Decimal numbers -/

lemma neg_ofRatio (n d : Nat) : (Binary64.ofRatio false n d).neg = .ofRatio true n d := by
  unfold Binary64.ofRatio
  dsimp only
  split
  · rfl
  · split <;> split <;> rfl

lemma neg_ofDecimal (coefficient : Nat) (exponent : Int) :
    (Binary64.ofDecimal false coefficient exponent).neg = .ofDecimal true coefficient exponent := by
  unfold Binary64.ofDecimal
  dsimp only
  split
  · rfl
  · split
    · rfl
    · exact neg_ofRatio ..

/-- The exponent behind a small letter. -/
def Exponent.lowered (e : Exponent) : Exponent := { e with capital := false }

def Numeral.lowered (n : Numeral) : Numeral :=
  { n with exponent := n.exponent.map Exponent.lowered }

lemma flatMap_lowerChar_digitChars (ds : List Digit) :
    (digitChars ds).flatMap Text.lowerChar = digitChars ds := by
  have hdigit : ∀ d : Digit, Text.lowerChar d.char = [d.char] := by decide
  induction ds with
  | nil => rfl
  | cons d ds ih => rw [digitChars_cons, List.flatMap_cons, hdigit, ih]; rfl

lemma Exponent.flatMap_lowerChar (e : Exponent) :
    e.chars.flatMap Text.lowerChar = e.lowered.chars := by
  obtain ⟨capital, sign, digits⟩ := e
  simp only [chars, List.flatMap_cons, List.flatMap_append, flatMap_lowerChar_digitChars]
  rcases capital with _ | _ <;> rcases sign with _ | (_ | _) <;> rfl

lemma lower_numeral (n : Numeral) :
    Text.lower (String.ofList n.chars) = String.ofList n.lowered.chars := by
  obtain ⟨negative, whole, fraction, exponent⟩ := n
  have hsign : (signChars negative).flatMap Text.lowerChar = signChars negative := by
    cases negative <;> rfl
  have hfraction : (fraction.elim [] fun ds => '.' :: digitChars ds.all).flatMap Text.lowerChar
      = fraction.elim [] fun ds => '.' :: digitChars ds.all := by
    cases fraction with
    | none => rfl
    | some ds => exact congrArg ('.' :: ·) (flatMap_lowerChar_digitChars ds.all)
  have hexponent : (exponent.elim [] Exponent.chars).flatMap Text.lowerChar
      = (exponent.map .lowered).elim [] Exponent.chars := by
    cases exponent with
    | none => rfl
    | some e => exact e.flatMap_lowerChar
  rw [Text.lower, String.toList_ofList]
  simp only [Numeral.chars, Numeral.lowered, List.flatMap_append, flatMap_lowerChar_digitChars,
    hsign, hfraction, hexponent]

lemma dropUnderscores_eq {cs : List Char} (h : cs ⊆ numericChars) :
    Number.dropUnderscores cs = some cs := by
  have hlow : ∀ c ∈ cs, c ≠ '_' := fun c hc =>
    bne_iff_ne.mp (forall_numeric (p := (· != '_')) (by decide) h c hc)
  induction cs with
  | nil => rfl
  | cons c cs ih =>
    rw [List.cons_subset] at h
    rw [List.forall_mem_cons] at hlow
    unfold Number.dropUnderscores
    split
    · next heq => cases heq
    · next heq => exact absurd (List.cons.inj heq).1 hlow.1
    · next heq =>
      obtain ⟨rfl, rfl⟩ := List.cons.inj heq
      exact absurd rfl (hlow.2 '_' (List.mem_cons_self ..))
    · next heq =>
      obtain ⟨rfl, rfl⟩ := List.cons.inj heq
      rw [ih h.2 hlow.2]
      rfl

/-- An exponent with a small letter is read as its value. -/
lemma readExponent?_chars (e : Exponent) :
    Number.readExponent? e.lowered.chars = some e.value := by
  have hspan : Number.spanDigits (digitChars e.digits.all ++ []) = _ :=
    spanDigits_digitChars _ nofun
  rw [List.append_nil] at hspan
  have hsplit : Number.splitSign (e.signChars ++ digitChars e.digits.all)
      = (e.sign == some true, digitChars e.digits.all) := by
    obtain ⟨capital, _ | (_ | _), digits⟩ := e
    · exact digits.first.splitSign_char _
    · rfl
    · rfl
  change Number.readExponent? ('e' :: (e.signChars ++ digitChars e.digits.all)) = _
  rw [Number.readExponent?, if_pos (by decide), hsplit]
  dsimp only
  rw [hspan, Exponent.value]
  simp only [beq_iff_eq]
  rfl

/-- An optional exponent, with zero for none. -/
lemma readExponent?_elim (exponent : Option Exponent) :
    Number.readExponent? ((exponent.map .lowered).elim [] Exponent.chars)
      = some (exponent.elim 0 Exponent.value) := by
  cases exponent with
  | none => rfl
  | some e => exact readExponent?_chars e

/-- A text that begins with a digit is no word for an infinity or for no number. -/
lemma ofList_digit_ne {d : Digit} {cs : List Char} {w : String} {c : Char} {w' : List Char}
    (hw : w.toList = c :: w') (hc : c ≠ d.char) : String.ofList (d.char :: cs) ≠ w := by
  intro heq
  rw [← heq, String.toList_ofList] at hw
  exact hc (List.cons.inj hw).1.symm

lemma readMagnitude?_digits (whole fraction : Digits) (exponent : Option Exponent) :
    Number.readMagnitude? false (digitChars whole.all ++ '.' :: (digitChars fraction.all
        ++ (exponent.map .lowered).elim [] Exponent.chars))
      = some (.ofDecimal false (valueOf (whole.all ++ fraction.all))
        (exponent.elim 0 Exponent.value - fraction.all.length)) := by
  have hhead : ∀ c, ((exponent.map Exponent.lowered).elim []
      Exponent.chars).head? = some c → Text.digitValue? c = none := by
    intro c hc
    rcases head_exponent _ c hc with rfl | rfl <;> decide
  have hletters : ∀ d : Digit, d.char.toLower = d.char ∧ 'i' ≠ d.char ∧ 'n' ≠ d.char := by decide
  obtain ⟨hlower, hi, hn⟩ := hletters whole.first
  rw [Number.readMagnitude?, Digits.all, digitChars_cons, List.cons_append, List.map_cons, hlower]
  dsimp only
  rw [if_neg (not_or.mpr ⟨ofList_digit_ne rfl hi, ofList_digit_ne rfl hi⟩),
    if_neg (ofList_digit_ne rfl hn), ← List.cons_append, ← digitChars_cons,
    spanDigits_digitChars _ fun c hc => by cases hc; decide]
  simp only [spanDigits_digitChars fraction.all hhead]
  rw [readExponent?_elim, List.map_cons, List.isEmpty_cons, Bool.false_and,
    if_neg Bool.false_ne_true, List.length_map, ← List.map_cons, ← List.map_append]
  rfl

lemma decimal_digits (whole fraction : Digits) (exponent : Option Exponent) :
    ScalarValue.decimal (digitChars whole.all ++ '.' :: (digitChars fraction.all
        ++ (exponent.map .lowered).elim [] Exponent.chars))
      = .ok (.ofDecimal false (valueOf (whole.all ++ fraction.all))
        (exponent.elim 0 Exponent.value - fraction.all.length)) := by
  have hnumeric : digitChars whole.all ++ '.' :: (digitChars fraction.all
      ++ (exponent.map .lowered).elim [] Exponent.chars)
      ⊆ numericChars := by
    rw [List.append_subset, List.cons_subset, List.append_subset]
    refine ⟨digitChars_subset _, by decide, digitChars_subset _, ?_⟩
    cases exponent with
    | none => exact List.nil_subset _
    | some e => exact Exponent.chars_subset _
  have hmagnitude := readMagnitude?_digits whole fraction exponent
  rw [ScalarValue.decimal, Number.readDecimal, String.toList_ofList, strip_numeric hnumeric]
  rw [Digits.all, digitChars_cons, List.cons_append] at hnumeric hmagnitude ⊢
  rw [whole.first.splitSign_char]
  dsimp only
  rw [dropUnderscores_eq hnumeric, Option.bind_some, hmagnitude]
  rfl

lemma floatMagnitude_numeric {d : Digit} {cs : List Char} (h : d.char :: cs ⊆ numericChars) :
    ScalarValue.floatMagnitude (d.char :: cs) = ScalarValue.decimal (d.char :: cs) := by
  have hpoint : '.' ≠ d.char := fun heq => absurd d.char_ne_point (by rw [← heq]; decide)
  rw [ScalarValue.floatMagnitude, if_neg (ofList_digit_ne rfl hpoint),
    if_neg (ofList_digit_ne rfl hpoint), contains_colon h, if_neg Bool.false_ne_true]

/-- A number with a fraction is read as the nearest binary64 number. -/
lemma float_eq {n : Numeral} {fraction : Digits} (hfraction : n.fraction = some fraction) :
    ScalarValue.float (String.ofList n.chars) = .ok n.raw := by
  obtain ⟨negative, whole, _, exponent⟩ := n
  cases hfraction
  -- The text is made lower first, then the sign is taken off, and what is left starts with a digit.
  obtain ⟨d, ds, hwhole⟩ := whole.exists_digits
  have hdecimal := decimal_digits ⟨d, ds⟩ fraction exponent
  have hchars : (Numeral.mk negative whole (some fraction) exponent).lowered.chars
      = signChars negative ++ d.char :: (digitChars ds ++ '.' :: (digitChars fraction.all
        ++ (exponent.map .lowered).elim [] Exponent.chars)) := by
    rw [Numeral.chars, Numeral.lowered, hwhole]
    rfl
  have hnumeric := Numeral.chars_subset (Numeral.mk negative whole (some fraction) exponent).lowered
  rw [hchars, List.append_subset] at hnumeric
  rw [ScalarValue.float, lower_numeral, String.toList_ofList, hchars,
    unsigned_numeric negative hnumeric.2]
  change (ScalarValue.floatMagnitude (d.char :: _) >>= _) = _
  rw [floatMagnitude_numeric hnumeric.2]
  change (ScalarValue.decimal (digitChars (Digits.all ⟨d, ds⟩) ++ _) >>= _) = _
  rw [hdecimal, Numeral.raw, hwhole]
  cases negative with
  | true => exact congrArg (fun x => Except.ok (Raw.float x)) (neg_ofDecimal ..)
  | false => rfl

/-- A number that YAML shares is read as the number that it denotes. -/
lemma ofText_numeral {n : Numeral} (h : n.isShared = true) :
    ScalarValue.ofText (Tag.ofPlain (String.ofList n.chars)) (String.ofList n.chars)
      = .ok n.raw := by
  cases hfraction : n.fraction with
  | some fraction =>
    rw [ofPlain_decimal hfraction h]
    exact float_eq hfraction
  | none =>
    cases hexponent : n.exponent with
    | some e =>
      rw [Numeral.isShared, hfraction, hexponent] at h
      cases h
    | none =>
      rw [ofPlain_integer hfraction hexponent]
      exact integer_eq hfraction hexponent h

end ApiLint.Json
