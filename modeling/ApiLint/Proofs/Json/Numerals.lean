import ApiLint.Proofs.Json.Grammar
import ApiLint.Proofs.Number.Runs
import ApiLint.Proofs.Yaml.Scalars
import ApiLint.Yaml.Tag

/-!
# The forms of JSON numbers

A number of JSON that YAML shares has the form of an integer or a decimal number, and takes its tag
as a plain scalar.
-/

namespace ApiLint.Json

open Yaml Yaml.Tag Yaml.Tag.Form

/-! ### Digits -/

/-- The character of a digit. -/
abbrev Digit.char (d : Digit) : Char := Nat.digitChar d.val

lemma digitChars_cons (d : Digit) (ds : List Digit) :
    digitChars (d :: ds) = d.char :: digitChars ds := rfl

lemma forall_digitChars {p : Char → Prop} (h : ∀ d : Digit, p d.char) (ds : List Digit) :
    ∀ c ∈ digitChars ds, p c := by
  intro c hc
  obtain ⟨d, -, rfl⟩ := List.mem_map.mp hc
  exact h d

lemma Digit.digitValue?_char (d : Digit) : Text.digitValue? d.char = some d.val := by
  revert d
  decide

lemma Digit.digitIn?_char (d : Digit) : Number.digitIn? 10 d.char = some d.val := by
  revert d
  decide

lemma Digit.isDigit_char (d : Digit) : d.char.isDigit = true := by
  revert d
  decide

lemma Digit.char_ne_underscore (d : Digit) : d.char ≠ '_' := by
  revert d
  decide

lemma digitsIn?_digitChars (d : Digit) (ds : List Digit) :
    Number.digitsIn? 10 (digitChars (d :: ds)) = some ((d :: ds).map Fin.val) := by
  induction ds generalizing d with
  | nil =>
    rw [digitChars, List.map_singleton, Number.digitsIn?, Digit.digitIn?_char]
    rfl
  | cons e ds ih =>
    rw [digitChars_cons, digitChars_cons, Number.digitsIn?, ← digitChars_cons, ih,
      Digit.digitIn?_char]
    · rfl
    · nofun
    · intro rest h
      exact absurd (List.cons.inj h).1 e.char_ne_underscore

lemma digitValues_digitChars (ds : List Digit) :
    Text.digitValues (digitChars ds) = ds.map Fin.val := by
  induction ds with
  | nil => rfl
  | cons d ds ih => rw [digitChars_cons, Text.digitValues_cons d.digitValue?_char, ih, List.map_cons]

/-- Digits are read up to what is no digit. -/
lemma spanDigits_digitChars (ds : List Digit) {cs : List Char}
    (hcs : ∀ c, cs.head? = some c → Text.digitValue? c = none) :
    Number.spanDigits (digitChars ds ++ cs) = (ds.map Fin.val, cs) := by
  have hdigits : ∀ c ∈ digitChars ds, Text.isDecimalDigit c = true :=
    forall_digitChars (fun d => by rw [Text.isDecimalDigit, d.digitValue?_char]; rfl) ds
  have hend : Text.EndRun cs := fun c hc => by rw [Text.isDecimalDigit, hcs c hc]; rfl
  rw [Text.spanDigits_append hdigits hend, digitValues_digitChars]

/-! ### The characters of numbers -/

/-- The characters that numbers are written with. -/
def numericChars : List Char := "0123456789+-.eE".toList

lemma digitChars_subset (ds : List Digit) : digitChars ds ⊆ numericChars :=
  forall_digitChars (p := (· ∈ numericChars)) (by decide) ds

lemma Exponent.chars_subset (e : Exponent) : e.chars ⊆ numericChars := by
  obtain ⟨capital, sign, digits⟩ := e
  rw [Exponent.chars, List.cons_subset, List.append_subset]
  refine ⟨?_, ?_, digitChars_subset _⟩
  · cases capital <;> exact of_decide_eq_true rfl
  · rcases sign with _ | (_ | _) <;> exact of_decide_eq_true rfl

lemma Numeral.chars_subset (n : Numeral) : n.chars ⊆ numericChars := by
  obtain ⟨negative, whole, fraction, exponent⟩ := n
  simp only [Numeral.chars, List.append_subset]
  refine ⟨?_, digitChars_subset _, ?_, ?_⟩
  · cases negative <;> exact of_decide_eq_true rfl
  · cases fraction with
    | none => exact List.nil_subset _
    | some ds => exact List.cons_subset.mpr ⟨by decide, digitChars_subset _⟩
  · cases exponent with
    | none => exact List.nil_subset _
    | some e => exact e.chars_subset

/-- What holds of the characters of numbers, one by one, holds in a text of them. -/
lemma forall_numeric {p : Char → Bool} (h : numericChars.all p = true) {cs : List Char}
    (hcs : cs ⊆ numericChars) : ∀ c ∈ cs, p c = true :=
  fun _ hc => List.all_eq_true.mp h _ (hcs hc)

/-! ### Forms -/

section Forms

variable {f g : Form} {p : Char → Bool} {c : Char} {cs x : List Char}

lemma andThen_one (h : p c = true) : andThen (one p) g (c :: cs) = g cs := by
  simp [andThen, one, h]

lemma andThen_one_of_neg (h : p c = false) : andThen (one p) g (c :: cs) = [] := by
  simp [andThen, one, h]

lemma andThen_run : andThen (run p) g cs = g (cs.dropWhile p) := List.append_nil _

lemma holds_of_mem (h : [] ∈ f cs) : holds f cs = true := List.any_eq_true.mpr ⟨[], h, rfl⟩

lemma holds_of_eq_nil (h : f cs = []) : holds f cs = false := by
  rw [holds, h]
  rfl

end Forms

variable {d : Digit} {ds : List Digit} {cs : List Char}

lemma Digit.isDigitOrLow_char (d : Digit) : isDigitOrLow d.char = true := by
  revert d
  decide

lemma dropWhile_digitChars {p : Char → Bool} (h : ∀ d : Digit, p d.char = true) (ds : List Digit)
    (hcs : ∀ c, cs.head? = some c → p c = false) : (digitChars ds ++ cs).dropWhile p = cs := by
  rw [List.dropWhile_append_of_pos (forall_digitChars (p := (p · = true)) h ds)]
  cases cs with
  | nil => rfl
  | cons c cs => rw [List.dropWhile_cons_of_neg (by rw [hcs c rfl]; exact Bool.false_ne_true)]

lemma dropWhile_digitChars_eq_nil {p : Char → Bool} (h : ∀ d : Digit, p d.char = true)
    (ds : List Digit) : (digitChars ds).dropWhile p = [] := by
  have hdrop : (digitChars ds ++ []).dropWhile p = [] := dropWhile_digitChars h ds nofun
  rwa [List.append_nil] at hdrop

/-- A sign may be left out in front of what does not begin with one. -/
lemma andThen_sign {g : Form} (hg : ∀ cs, g ('-' :: cs) = []) (negative : Bool) (d : Digit)
    (cs : List Char) : andThen sign g (signChars negative ++ d.char :: cs) = g (d.char :: cs) := by
  have hone : one (fun c => c == '+' || c == '-') (d.char :: cs) = [] := by
    have hd : (d.char == '+' || d.char == '-') = false := by
      revert d
      decide
    rw [one, hd, if_neg Bool.false_ne_true]
  cases negative with
  | true =>
    change g (d.char :: cs) ++ (g ('-' :: d.char :: cs) ++ []) = _
    rw [hg, List.append_nil, List.append_nil]
  | false =>
    change List.flatMap g (one _ (d.char :: cs) ++ [d.char :: cs]) = _
    rw [hone]
    exact List.append_nil _


/-- A text is none of the words when it begins with a character that begins no word. -/
lemma oneOf_eq_nil {ws : List String} {starts : List Char} {c : Char} {cs : List Char}
    (h : starts.all (fun c => ws.all fun w => w.toList.head?.any (· != c)) = true)
    (hc : c ∈ starts) : oneOf ws (c :: cs) = [] := by
  refine List.flatMap_eq_nil_iff.mpr fun w hw => ?_
  have hw := List.all_eq_true.mp (List.all_eq_true.mp h c hc) w hw
  unfold word
  cases hchars : w.toList with
  | nil =>
    rw [hchars] at hw
    cases hw
  | cons d ds =>
    rw [hchars, List.head?_cons, Option.any_some, bne_comm, bne, Bool.not_eq_true'] at hw
    exact andThen_one_of_neg hw

/-- No text that begins as a number is a word for a boolean. -/
lemma boolForm_eq_nil {c : Char} (h : c ∈ numericChars) (cs : List Char) :
    boolForm (c :: cs) = [] := oneOf_eq_nil (by decide) h

lemma Digit.char_ne_point (d : Digit) : (d.char == '.') = false := by
  revert d
  decide

/-- Digits alone are no decimal number. -/
lemma floatForm_digits (cs : List Char) (negative : Bool) (d : Digit) (ds : List Digit) :
    floatForm cs (signChars negative ++ digitChars (d :: ds)) = [] := by
  have hrun := dropWhile_digitChars_eq_nil Digit.isDigitOrLow_char ds
  have hsixty : ∀ n, repeated sixty n [] = [] := by
    intro n
    cases n <;> rfl
  have hdigit (g : Form) : andThen digit g (digitChars (d :: ds)) = g (digitChars ds) :=
    andThen_one d.isDigit_char
  have hpoint (g : Form) :
      andThen (one (· == '.')) g (signChars negative ++ digitChars (d :: ds)) = [] := by
    cases negative with
    | true => rfl
    | false => exact andThen_one_of_neg d.char_ne_point
  -- Each of the five forms asks for a point or a colon, which no digits give.
  refine List.flatMap_eq_nil_iff.mpr ?_
  simp only [List.forall_mem_cons, List.not_mem_nil, false_imp_iff, implies_true, and_true]
  refine ⟨?_, ?_, ?_, ?_, ?_⟩
  · refine (andThen_sign (fun _ => rfl) ..).trans ((hdigit _).trans ?_)
    rw [List.foldr, andThen_run, hrun]
    rfl
  · exact hpoint _
  · refine (andThen_sign (fun _ => rfl) ..).trans ((hdigit _).trans ?_)
    rw [List.foldr, andThen_run, hrun, List.foldr, andThen, sixtyParts, hsixty]
    rfl
  · exact (andThen_sign (fun _ => rfl) ..).trans (andThen_one_of_neg d.char_ne_point)
  · exact hpoint _

/-- Digits that do not begin with a superfluous zero are an integer. -/
lemma nil_mem_intForm (cs : List Char) (negative : Bool) (whole : Whole) :
    [] ∈ intForm cs (signChars negative ++ digitChars whole.digits) := by
  refine List.mem_flatMap.mpr
    ⟨Form.sequence [sign, either (word "0") (andThen (one fun c => '1' ≤ c && c ≤ '9')
      (run isDigitOrLow))], List.mem_of_mem_drop (i := 2) (List.mem_cons_self ..), ?_⟩
  cases whole with
  | zero => cases negative <;> decide
  | positive first others =>
    have hfirst : (fun c => '1' ≤ c && c ≤ '9' : Char → Bool) (Digit.char first.succ) = true := by
      revert first
      decide
    have hrun := dropWhile_digitChars_eq_nil Digit.isDigitOrLow_char others
    rw [Whole.digits, digitChars_cons, Form.sequence, List.foldr, andThen_sign fun _ => rfl]
    refine List.mem_flatMap.mpr ⟨[], List.mem_append_right _ ?_, List.mem_singleton_self _⟩
    rw [andThen_one hfirst, run, hrun]
    exact List.mem_singleton_self _

/-- An exponent with a sign, or none, is one of a decimal number. -/
lemma nil_mem_exponent {exponent : Option Exponent}
    (h : ∀ e, exponent = some e → e.sign.isSome = true) :
    [] ∈ Tag.exponent (exponent.elim [] Exponent.chars) := by
  cases exponent with
  | none => exact List.mem_singleton_self _
  | some e =>
    obtain ⟨capital, sign, first, others⟩ := e
    obtain ⟨negative, rfl⟩ := Option.isSome_iff_exists.mp (h _ rfl)
    refine List.mem_append_left _ ?_
    have hletter : (fun c => c == 'e' || c == 'E') (if capital then 'E' else 'e') = true := by
      cases capital <;> rfl
    have hsign : (fun c => c == '+' || c == '-') (if negative then '-' else '+') = true := by
      cases negative <;> rfl
    have hrun := dropWhile_digitChars_eq_nil Digit.isDigit_char others
    change [] ∈ andThen (one _) (andThen (one _) (andThen (some1 Char.isDigit) nothing))
      (_ :: _ :: digitChars (first :: others))
    rw [andThen_one hletter, andThen_one hsign]
    refine List.mem_flatMap.mpr ⟨[], ?_, List.mem_singleton_self _⟩
    rw [some1, digitChars_cons, andThen_one first.isDigit_char, run, hrun]
    exact List.mem_singleton_self _

lemma head_exponent (exponent : Option Exponent) :
    ∀ c, (exponent.elim [] Exponent.chars).head? = some c → c = 'E' ∨ c = 'e' := by
  intro c hc
  cases exponent with
  | none => cases hc
  | some e =>
    have hc : (if e.capital then 'E' else 'e') = c := Option.some.inj hc
    rw [← hc]
    cases e.capital with
    | true => exact .inl rfl
    | false => exact .inr rfl

/-- Digits around a point, and perhaps an exponent with a sign, are a decimal number. -/
lemma nil_mem_floatForm (cs : List Char) (negative : Bool) (d : Digit) (ds fraction : List Digit)
    {exponent : Option Exponent} (h : ∀ e, exponent = some e → e.sign.isSome = true) :
    [] ∈ floatForm cs (signChars negative ++ (digitChars (d :: ds)
      ++ ('.' :: digitChars fraction ++ exponent.elim [] Exponent.chars))) := by
  refine List.mem_flatMap.mpr ⟨_, List.mem_cons_self .., ?_⟩
  have hexponent := dropWhile_digitChars Digit.isDigitOrLow_char fraction fun c hc => by
    rcases head_exponent exponent c hc with rfl | rfl <;> rfl
  rw [digitChars_cons, Form.sequence, List.foldr, List.cons_append, andThen_sign fun _ => rfl]
  simp only [List.foldr]
  rw [digit, andThen_one d.isDigit_char, andThen_run,
    dropWhile_digitChars Digit.isDigitOrLow_char ds fun c hc => by cases hc; rfl,
    List.cons_append, andThen_one (by rfl), andThen_run, hexponent]
  exact List.mem_flatMap.mpr ⟨[], nil_mem_exponent h, List.mem_singleton_self _⟩

/-! ### Tags -/

lemma Whole.exists_digits (w : Whole) : ∃ d ds, w.digits = d :: ds := by
  cases w <;> exact ⟨_, _, rfl⟩

lemma Numeral.exists_chars (n : Numeral) : ∃ c cs, n.chars = c :: cs ∧ c ∈ numericChars := by
  obtain ⟨d, ds, hwhole⟩ := n.whole.exists_digits
  cases hchars : n.chars with
  | nil => simp [Numeral.chars, hwhole, digitChars] at hchars
  | cons c cs => exact ⟨c, cs, rfl, n.chars_subset (by rw [hchars]; exact List.mem_cons_self ..)⟩

/-- A number is no word for a boolean, and the other forms are tried. -/
lemma ofPlain_numeral (n : Numeral) : Tag.ofPlain (String.ofList n.chars)
    = (((floatForm n.chars, Tag.float) :: (intForm n.chars, .int) :: (forms n.chars).drop 3).find?
      fun f => f.1.holds n.chars).elim .str (·.2) := by
  obtain ⟨c, cs, hchars, hc⟩ := n.exists_chars
  have hbool : boolForm.holds n.chars = false := by
    rw [hchars]
    exact holds_of_eq_nil (boolForm_eq_nil hc cs)
  rw [Tag.ofPlain, String.toList_ofList]
  split
  · next heq =>
    rw [hchars] at heq
    cases heq
  · rw [forms, List.find?_cons]
    dsimp only
    rw [hbool]
    rfl

/-- Without fraction and exponent a number is an integer. -/
lemma ofPlain_integer {n : Numeral} (hfraction : n.fraction = none)
    (hexponent : n.exponent = none) : Tag.ofPlain (String.ofList n.chars) = .int := by
  have hchars : n.chars = signChars n.negative ++ digitChars n.whole.digits := by
    rw [Numeral.chars, hfraction, hexponent]
    exact congrArg _ (List.append_nil _)
  obtain ⟨d, ds, hwhole⟩ := n.whole.exists_digits
  have hfloat : (floatForm n.chars).holds n.chars = false :=
    holds_of_eq_nil (by rw [hchars, hwhole]; exact floatForm_digits ..)
  have hint : holds (intForm n.chars) n.chars = true :=
    holds_of_mem (by rw [hchars]; exact nil_mem_intForm ..)
  simp only [ofPlain_numeral, List.find?_cons, hfloat, hint, Option.elim_some]

/-- A number that YAML shares and that has a fraction is a decimal number. -/
lemma ofPlain_decimal {n : Numeral} {ds : Digits} (hfraction : n.fraction = some ds)
    (h : n.isShared = true) : Tag.ofPlain (String.ofList n.chars) = .float := by
  have hsigns : ∀ e, n.exponent = some e → e.sign.isSome = true := by
    intro e he
    rwa [Numeral.isShared, hfraction, he] at h
  have hfloat : holds (floatForm n.chars) n.chars = true := by
    obtain ⟨d, ds', hwhole⟩ := n.whole.exists_digits
    refine holds_of_mem ?_
    have hmem := nil_mem_floatForm n.chars n.negative d ds' ds.all hsigns
    rw [← hwhole] at hmem
    have hchars : n.chars = signChars n.negative ++ (digitChars n.whole.digits
        ++ ('.' :: digitChars ds.all ++ n.exponent.elim [] Exponent.chars)) := by
      rw [Numeral.chars, hfraction]
      rfl
    rwa [← hchars] at hmem
  simp only [ofPlain_numeral, List.find?_cons, hfloat, Option.elim_some]

end ApiLint.Json
