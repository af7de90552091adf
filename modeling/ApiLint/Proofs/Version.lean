import ApiLint.Proofs.Document.Reading
import ApiLint.Proofs.Number.Runs
import ApiLint.Version

/-!
# The grammar of versions

A version is read from exactly the texts of its grammar, blanks around them aside: two or three runs
of digits with points between them, and a suffix or nothing. The text determines the runs, and the
numbers of a version are read back from its written form.
-/

namespace ApiLint

namespace Version

open Text

variable {cs rest run suffix major minor patch : List Char} {ds : List Nat}

/-! ### Texts of versions -/

/-- What may stand behind the numbers of a version: nothing, or a sign and no line feed behind
it. -/
def IsSuffix (suffix : List Char) : Prop :=
  suffix = [] ∨ ∃ sign rest, suffix = sign :: rest ∧ (sign = '-' ∨ sign = '+') ∧ '\n' ∉ rest

/-- The texts of versions, with the runs of digits of their numbers. A missing patch is an empty
run. -/
inductive IsSpelled : List Char → List Char → List Char → List Char → Prop
  | two {major minor suffix : List Char} (hmajor : IsRun major) (hminor : IsRun minor)
      (hsuffix : IsSuffix suffix) : IsSpelled (major ++ '.' :: (minor ++ suffix)) major minor []
  | three {major minor patch suffix : List Char} (hmajor : IsRun major) (hminor : IsRun minor)
      (hpatch : IsRun patch) (hsuffix : IsSuffix suffix) :
      IsSpelled (major ++ '.' :: (minor ++ '.' :: (patch ++ suffix))) major minor patch

lemma isSuffix_iff : isSuffix suffix = true ↔ IsSuffix suffix := by
  cases suffix with
  | nil => exact iff_of_true rfl (.inl rfl)
  | cons sign rest => simp [isSuffix, IsSuffix]

lemma endRun_point : EndRun ('.' :: rest) := .cons (by decide)

lemma IsSuffix.endRun (h : IsSuffix suffix) : EndRun suffix := by
  obtain rfl | ⟨sign, rest, rfl, rfl | rfl, -⟩ := h
  · exact .nil
  · exact .cons (by decide)
  · exact .cons (by decide)

lemma IsSuffix.splitPointRun?_eq_none (h : IsSuffix suffix) : splitPointRun? suffix = none := by
  obtain rfl | ⟨sign, rest, rfl, rfl | rfl, -⟩ := h <;> rfl

/-! ### Reading -/

lemma splitRun?_eq_some_iff : splitRun? cs = some (ds, rest) ↔
    ∃ run, IsRun run ∧ EndRun rest ∧ cs = run ++ rest ∧ ds = digitValues run := by
  constructor
  · intro h
    obtain ⟨run, rest', rfl, hrun, hrest⟩ := exists_run_append cs
    rw [splitRun?, spanDigits_append hrun hrest] at h
    split at h
    · cases h
    · next heq =>
      obtain ⟨hds, rfl⟩ := Prod.mk.inj heq
      cases h
      refine ⟨run, ⟨?_, hrun⟩, hrest, rfl, hds.symm⟩
      rintro rfl
      cases hds
  · rintro ⟨run, ⟨hne, hdigits⟩, hrest, rfl, rfl⟩
    -- A run has a value for each of its digits, so it does not split to none.
    have hlength := length_digitValues hdigits
    rw [splitRun?, spanDigits_append hdigits hrest]
    split
    · next heq =>
      rw [(Prod.mk.inj heq).1] at hlength
      exact absurd (List.length_eq_zero_iff.mp hlength.symm) hne
    · next heq => rw [← (Prod.mk.inj heq).1, ← (Prod.mk.inj heq).2]

lemma splitRun?_append (hrun : IsRun run) (hrest : EndRun rest) :
    splitRun? (run ++ rest) = some (digitValues run, rest) :=
  splitRun?_eq_some_iff.mpr ⟨run, hrun, hrest, rfl, rfl⟩

lemma splitPointRun?_append (hrun : IsRun run) (hrest : EndRun rest) :
    splitPointRun? ('.' :: (run ++ rest)) = some (digitValues run, rest) :=
  splitRun?_append hrun hrest

lemma splitPointRun?_eq_some (h : splitPointRun? cs = some (ds, rest)) :
    ∃ run, IsRun run ∧ EndRun rest ∧ cs = '.' :: (run ++ rest) ∧ ds = digitValues run := by
  unfold splitPointRun? at h
  split at h
  · obtain ⟨run, hrun, hrest, rfl, hds⟩ := splitRun?_eq_some_iff.mp h
    exact ⟨run, hrun, hrest, rfl, hds⟩
  · cases h

/-- The text of a version determines its runs of digits. -/
lemma splitRuns?_eq_some_iff {cs : List Char} {ds ds' ds'' : List Nat} :
    splitRuns? cs = some (ds, ds', ds'') ↔ ∃ major minor patch, IsSpelled cs major minor patch
      ∧ ds = digitValues major ∧ ds' = digitValues minor ∧ ds'' = digitValues patch := by
  constructor
  · intro h
    obtain ⟨⟨first, rest⟩, hfirst, h⟩ := Option.bind_eq_some_iff.mp h
    obtain ⟨⟨second, rest'⟩, hsecond, h⟩ := Option.bind_eq_some_iff.mp h
    obtain ⟨major, hmajor, -, rfl, rfl⟩ := splitRun?_eq_some_iff.mp hfirst
    obtain ⟨minor, hminor, -, rfl, rfl⟩ := splitPointRun?_eq_some hsecond
    dsimp only at h
    split at h
    · next hsuffix =>
      rw [isSuffix_iff] at hsuffix
      cases h
      -- what is left behind the minor run is a suffix, or a third run with a suffix behind it
      cases hthird : splitPointRun? rest' with
      | none =>
        rw [hthird] at hsuffix
        exact ⟨major, minor, [], .two hmajor hminor hsuffix, rfl, rfl, rfl⟩
      | some third =>
        obtain ⟨patch, hpatch, -, rfl, heq⟩ := splitPointRun?_eq_some hthird
        rw [hthird] at hsuffix
        exact ⟨major, minor, patch, .three hmajor hminor hpatch hsuffix, rfl, rfl, heq⟩
    · cases h
  · rintro ⟨major, minor, patch, hspelled, rfl, rfl, rfl⟩
    cases hspelled with
    | two hmajor hminor hsuffix =>
      simp [splitRuns?, splitRun?_append hmajor endRun_point,
        splitPointRun?_append hminor hsuffix.endRun, hsuffix.splitPointRun?_eq_none,
        isSuffix_iff.mpr hsuffix, digitValues]
    | three hmajor hminor hpatch hsuffix =>
      simp [splitRuns?, splitRun?_append hmajor endRun_point,
        splitPointRun?_append hminor endRun_point, splitPointRun?_append hpatch hsuffix.endRun,
        isSuffix_iff.mpr hsuffix]

/-! ### Numbers -/

/-- A run of digits short enough to be read. -/
def IsShort (run : List Char) : Prop := run.length ≤ NumberError.digitLimit

instance : DecidablePred IsShort := fun run =>
  inferInstanceAs (Decidable (run.length ≤ NumberError.digitLimit))

lemma runValue_digitValues (h : ∀ c ∈ run, isDecimalDigit c = true) :
    runValue (digitValues run) = if NumberError.digitLimit < run.length then
      .error (.number (.tooManyDigits run.length)) else .ok (runNumber run) := by
  rw [runValue, length_digitValues h]
  rfl

lemma runValue_eq_ok_iff (h : ∀ c ∈ run, isDecimalDigit c = true) {n : Nat} :
    runValue (digitValues run) = .ok n ↔ IsShort run ∧ n = runNumber run := by
  rw [runValue_digitValues h, IsShort]
  split
  · next hlong => simp [hlong]
  · next hshort => simp [not_lt.mp hshort, eq_comm]

lemma IsSpelled.forall_digit (h : IsSpelled cs major minor patch) :
    (∀ c ∈ major, isDecimalDigit c = true) ∧ (∀ c ∈ minor, isDecimalDigit c = true)
      ∧ ∀ c ∈ patch, isDecimalDigit c = true := by
  cases h with
  | two hmajor hminor => exact ⟨hmajor.2, hminor.2, nofun⟩
  | three hmajor hminor hpatch => exact ⟨hmajor.2, hminor.2, hpatch.2⟩

/-- The version whose numbers have the given runs of digits. -/
def ofRuns (family : Family) (major minor patch : List Char) : Version :=
  ⟨family, runNumber major, runNumber minor, runNumber patch⟩

lemma ofText_eq_ok_iff {family : Family} {text : String} {v : Version} :
    ofText family text = .ok v ↔ ∃ major minor patch, IsSpelled (trim text).toList major minor patch
      ∧ IsShort major ∧ IsShort minor ∧ IsShort patch ∧ v = ofRuns family major minor patch := by
  rw [ofText]
  constructor
  · intro h
    split at h
    · cases h
    · next heq =>
      obtain ⟨major, minor, patch, hspelled, rfl, rfl, rfl⟩ := splitRuns?_eq_some_iff.mp heq
      obtain ⟨hmajor, hminor, hpatch⟩ := hspelled.forall_digit
      obtain ⟨a, ha, h⟩ := bind_eq_ok_iff.mp h
      obtain ⟨b, hb, h⟩ := bind_eq_ok_iff.mp h
      obtain ⟨c, hc, h⟩ := bind_eq_ok_iff.mp h
      obtain ⟨hshort, rfl⟩ := (runValue_eq_ok_iff hmajor).mp ha
      obtain ⟨hshort', rfl⟩ := (runValue_eq_ok_iff hminor).mp hb
      obtain ⟨hshort'', rfl⟩ := (runValue_eq_ok_iff hpatch).mp hc
      cases h
      exact ⟨major, minor, patch, hspelled, hshort, hshort', hshort'', rfl⟩
  · rintro ⟨major, minor, patch, hspelled, hshort, hshort', hshort'', rfl⟩
    obtain ⟨hmajor, hminor, hpatch⟩ := hspelled.forall_digit
    rw [splitRuns?_eq_some_iff.mpr ⟨major, minor, patch, hspelled, rfl, rfl, rfl⟩]
    dsimp only
    rw [(runValue_eq_ok_iff hmajor).mpr ⟨hshort, rfl⟩,
      (runValue_eq_ok_iff hminor).mpr ⟨hshort', rfl⟩,
      (runValue_eq_ok_iff hpatch).mpr ⟨hshort'', rfl⟩]
    rfl

lemma ofText_eq_malformed {family : Family} {text : String}
    (h : ∀ major minor patch, ¬IsSpelled (trim text).toList major minor patch) :
    ofText family text = .error (.malformed family text) := by
  have hnone : splitRuns? (trim text).toList = none := by
    rw [Option.eq_none_iff_forall_ne_some]
    rintro ⟨ds, ds', ds''⟩ hsome
    obtain ⟨major, minor, patch, hspelled, -⟩ := splitRuns?_eq_some_iff.mp hsome
    exact h major minor patch hspelled
  rw [ofText, hnone]

/-! ### Written versions -/

/-- A natural whose decimal text is short enough to be read. -/
def IsReadable (n : Nat) : Prop := (writtenNat n).length ≤ NumberError.digitLimit

instance : DecidablePred IsReadable := fun n =>
  inferInstanceAs (Decidable ((writtenNat n).length ≤ NumberError.digitLimit))

/-- The characters of three naturals with points between them. -/
def writtenRuns (a b c : Nat) : List Char :=
  Nat.toDigits 10 a ++ '.' :: (Nat.toDigits 10 b ++ '.' :: Nat.toDigits 10 c)

lemma isBlank_of_isDigit {c : Char} (h : c.isDigit = true) : isBlank c = false := by
  have hrange := toNat_of_isDigit h
  simp only [isBlank, Bool.or_eq_false_iff, Bool.and_eq_false_iff, decide_eq_false_iff_not,
    beq_eq_false_iff_ne]
  omega

/-- Blanks behind a character that is not blank are dropped alone. -/
lemma dropBlank_reverse_append {c : Char} (h : isBlank c = false) (xs ys : List Char) :
    (dropBlank (xs ++ c :: ys).reverse).reverse = xs ++ c :: (dropBlank ys.reverse).reverse := by
  have hreverse : (xs ++ c :: ys).reverse = ys.reverse ++ c :: xs.reverse := by simp
  rw [hreverse, dropBlank, List.dropWhile_append, ← dropBlank]
  split
  · next hempty =>
    have hnil : dropBlank ys.reverse = [] := List.isEmpty_iff.mp hempty
    rw [hnil, ← dropBlank, dropBlank_of_not_isBlank h]
    simp
  · simp

/-- A suffix without the blanks at its end is a suffix. -/
lemma IsSuffix.dropBlank_reverse (h : IsSuffix suffix) :
    IsSuffix (dropBlank suffix.reverse).reverse := by
  obtain rfl | ⟨sign, rest, rfl, hsign, hline⟩ := h
  · exact .inl rfl
  · have hblank : isBlank sign = false := by
      obtain rfl | rfl := hsign <;> decide
    have hdrop := dropBlank_reverse_append hblank [] rest
    rw [List.nil_append] at hdrop
    rw [hdrop]
    refine .inr ⟨sign, _, rfl, hsign, fun hmem => hline ?_⟩
    rw [List.mem_reverse] at hmem
    exact List.mem_reverse.mp ((List.dropWhile_sublist _).mem hmem)

/-- Of a written version and a suffix, only blanks around them and at the end of the suffix are
stripped. -/
lemma stripBlank_writtenRuns {front : List Char} (hfront : ∀ c ∈ front, isBlank c = true)
    (a b c : Nat) (suffix : List Char) :
    stripBlank (front ++ (writtenRuns a b c ++ suffix))
      = writtenRuns a b c ++ (dropBlank suffix.reverse).reverse := by
  -- the first and the last character are digits, so they are not blank
  obtain ⟨d, ds, hfirst⟩ := List.exists_cons_of_ne_nil (Nat.toDigits_ne_nil (b := 10) (n := a))
  obtain ⟨xs, e, hlast⟩ := List.eq_nil_or_concat (Nat.toDigits 10 c)
    |>.resolve_left Nat.toDigits_ne_nil
  have hd : isBlank d = false :=
    isBlank_of_isDigit (isDigit_of_mem_toDigits (by rw [hfirst]; exact List.mem_cons_self ..))
  have he : isBlank e = false :=
    isBlank_of_isDigit (isDigit_of_mem_toDigits (n := c) (by rw [hlast]; simp))
  have hdrop :
      dropBlank (front ++ (writtenRuns a b c ++ suffix)) = writtenRuns a b c ++ suffix := by
    rw [dropBlank, List.dropWhile_append_of_pos hfront, ← dropBlank, writtenRuns, hfirst]
    exact dropBlank_of_not_isBlank hd
  have hsplit : ∀ rest, writtenRuns a b c ++ rest
      = (Nat.toDigits 10 a ++ '.' :: (Nat.toDigits 10 b ++ '.' :: xs)) ++ e :: rest := by
    intro rest
    rw [writtenRuns, hlast]
    simp
  rw [stripBlank, hdrop, hsplit, hsplit, dropBlank_reverse_append he]

lemma ofText_writtenRuns {family : Family} {text : String} {a b c : Nat}
    (front suffix : List Char) (htext : text.toList = front ++ (writtenRuns a b c ++ suffix))
    (hfront : ∀ c ∈ front, isBlank c = true) (hsuffix : IsSuffix suffix) (ha : IsReadable a)
    (hb : IsReadable b) (hc : IsReadable c) : ofText family text = .ok ⟨family, a, b, c⟩ := by
  have hshort : ∀ n, IsReadable n → IsShort (Nat.toDigits 10 n) := by
    intro n hn
    rwa [IsReadable, ← String.length_toList, toList_writtenNat] at hn
  refine ofText_eq_ok_iff.mpr ⟨_, _, _, ?_, hshort a ha, hshort b hb, hshort c hc, ?_⟩
  · rw [trim, String.toList_ofList, htext, stripBlank_writtenRuns hfront]
    have hspelled := IsSpelled.three (isRun_toDigits a) (isRun_toDigits b) (isRun_toDigits c)
      hsuffix.dropBlank_reverse
    simpa [writtenRuns] using hspelled
  · simp only [ofRuns, runNumber_toDigits]

/-! ### Declarations in documents -/

/-- The texts of declared versions: a text itself, and the decimal text of a number. -/
inductive IsDeclared : Raw → String → Prop
  | text (s : String) : IsDeclared (.str s) s
  | integer (n : Int) : IsDeclared (.int n) (writtenInt n)
  | number (x : Binary64) : IsDeclared (.float x) x.written

/-- A version that a field of a document declares, in a supported major version. -/
def IsDeclaredAt (es : Entries) (family : Family) (major : Nat) (v : Version) : Prop :=
  ∃ raw text, es.field? family.name = some raw ∧ IsDeclared raw text
    ∧ ofText family text = .ok v ∧ v.major = major

lemma declaredText?_eq_some_iff {raw : Raw} {text : String} :
    declaredText? raw = some text ↔ IsDeclared raw text := by
  constructor
  · intro h
    cases raw <;> cases h <;> constructor
  · rintro ⟨⟩ <;> rfl

/-- A text that is read as a version has a point in it. -/
lemma point_mem_of_ofText {family : Family} {text : String} {v : Version}
    (h : ofText family text = .ok v) : '.' ∈ text.toList := by
  obtain ⟨major, minor, patch, hspelled, -⟩ := ofText_eq_ok_iff.mp h
  have hmem : '.' ∈ (trim text).toList := by
    generalize (trim text).toList = cs at hspelled ⊢
    cases hspelled <;> simp
  rw [trim, String.toList_ofList, stripBlank, List.mem_reverse] at hmem
  have hfront : '.' ∈ (dropBlank text.toList).reverse := (List.dropWhile_suffix _).subset hmem
  exact (List.dropWhile_suffix isBlank).subset (List.mem_reverse.mp hfront)

lemma point_notMem_writtenInt (n : Int) : '.' ∉ (writtenInt n).toList := by
  have hdigits : '.' ∉ Binary64.digitsOf n.natAbs := fun hmem =>
    absurd (Nat.isDigit_of_mem_toDigits (by decide) (by decide) hmem) (by decide)
  rw [writtenInt, String.toList_ofList]
  split
  · simpa using hdigits
  · exact hdigits

/-- What declares a version is short enough to be written. -/
lemma IsDeclared.isWritable {family : Family} {raw : Raw} {text : String} {v : Version}
    (hdeclared : IsDeclared raw text) (h : ofText family text = .ok v) : raw.isWritable = true := by
  cases hdeclared with
  | integer n => exact absurd (point_mem_of_ofText h) (point_notMem_writtenInt n)
  | _ => rfl

lemma ofRaw_eq_ok_iff {family : Family} {raw : Raw} {v : Version} :
    ofRaw family raw = .ok v ↔ ∃ text, IsDeclared raw text ∧ ofText family text = .ok v := by
  have htexts : (Raw.requireTexts [raw]).mapError VersionError.number = .ok ()
      ↔ raw.isWritable = true := by
    rw [mapError_eq_ok_iff, Raw.requireTexts_eq_ok_iff, List.forall_mem_singleton]
  rw [ofRaw, bind_eq_ok_iff]
  constructor
  · rintro ⟨_, -, h⟩
    cases hdeclared : declaredText? raw with
    | none =>
      rw [hdeclared] at h
      cases h
    | some text =>
      rw [hdeclared] at h
      exact ⟨text, declaredText?_eq_some_iff.mp hdeclared, h⟩
  · rintro ⟨text, hdeclared, h⟩
    refine ⟨(), htexts.mpr (hdeclared.isWritable h), ?_⟩
    rw [declaredText?_eq_some_iff.mpr hdeclared]
    exact h

lemma family_of_ofText {family : Family} {text : String} {v : Version}
    (h : ofText family text = .ok v) : v.family = family := by
  obtain ⟨major, minor, patch, -, -, -, -, rfl⟩ := ofText_eq_ok_iff.mp h
  rfl

/-- A declared version is that of the document if its major version is supported. -/
lemma ofRaw_bind_eq_ok_iff {family : Family} {raw : Raw} {v : Version} :
    (ofRaw family raw).bind requireSupported = .ok v ↔ ∃ text, IsDeclared raw text
      ∧ ofText family text = .ok v ∧ v.major = family.supportedMajor := by
  constructor
  · intro h
    obtain ⟨w, hw, hsupported⟩ := bind_eq_ok_iff.mp h
    obtain ⟨text, hdeclared, htext⟩ := ofRaw_eq_ok_iff.mp hw
    rw [requireSupported] at hsupported
    split at hsupported
    · next hmajor =>
      cases hsupported
      exact ⟨text, hdeclared, htext, family_of_ofText htext ▸ hmajor⟩
    · cases hsupported
  · rintro ⟨text, hdeclared, htext, hmajor⟩
    refine bind_eq_ok_iff.mpr ⟨v, ofRaw_eq_ok_iff.mpr ⟨text, hdeclared, htext⟩, ?_⟩
    rw [requireSupported, family_of_ofText htext, if_pos hmajor]

lemma ofDocument_eq_ok_iff {document : Raw} {v : Version} :
    ofDocument document = .ok v ↔ ∃ es : Entries, document = .dict es
      ∧ (IsDeclaredAt es .openapi 3 v
        ∨ es.field? "openapi" = none ∧ IsDeclaredAt es .swagger 2 v) := by
  cases document with
  | dict es =>
    simp only [Raw.dict.injEq, exists_eq_left']
    -- The families are tried in order, and the first that is named decides, whatever the other
    -- says.
    cases hopenapi : Entries.field? es "openapi" with
    | some raw =>
      have hdocument : ofDocument (.dict es) = (ofRaw .openapi raw).bind requireSupported := by
        simp [ofDocument, Family.all, Family.name, hopenapi]
      rw [hdocument, ofRaw_bind_eq_ok_iff, IsDeclaredAt, Family.name, hopenapi]
      simp [Family.supportedMajor]
    | none =>
      cases hswagger : Entries.field? es "swagger" with
      | some raw =>
        have hdocument : ofDocument (.dict es) = (ofRaw .swagger raw).bind requireSupported := by
          simp [ofDocument, Family.all, Family.name, hopenapi, hswagger]
        rw [hdocument, ofRaw_bind_eq_ok_iff, IsDeclaredAt, IsDeclaredAt, Family.name, Family.name,
          hopenapi, hswagger]
        simp [Family.supportedMajor]
      | none =>
        simp [ofDocument, Family.all, Family.name, hopenapi, hswagger, IsDeclaredAt]
  | _ => simp [ofDocument]

/-- A version is read from exactly the texts of its grammar without blanks around them, and its
numbers are those of the runs of digits; any other text is malformed. So the numbers of a version
are read back from its written form. A document has a version if the field of its family declares
one in the supported major version. -/
theorem ofText_and_ofDocument_eq_ok_iff (family : Family) :
    (∀ text v, ofText family text = .ok v ↔ ∃ major minor patch,
      IsSpelled (trim text).toList major minor patch
      ∧ IsShort major ∧ IsShort minor ∧ IsShort patch ∧ v = ofRuns family major minor patch)
    ∧ (∀ text, (∀ major minor patch, ¬IsSpelled (trim text).toList major minor patch) →
      ofText family text = .error (.malformed family text))
    ∧ (∀ a b c suffix, IsReadable a → IsReadable b → IsReadable c → IsSuffix suffix.toList →
      ofText family (writtenNat a ++ "." ++ writtenNat b ++ "." ++ writtenNat c ++ suffix)
        = .ok ⟨family, a, b, c⟩)
    ∧ (∀ v : Version, IsReadable v.major → IsReadable v.minor → IsReadable v.patch →
      ∃ rest, v.text = v.family.name ++ rest ∧ ofText v.family rest = .ok v)
    ∧ ∀ document v, ofDocument document = .ok v ↔ ∃ es : Entries, document = .dict es
      ∧ (IsDeclaredAt es .openapi 3 v
        ∨ es.field? "openapi" = none ∧ IsDeclaredAt es .swagger 2 v) := by
  refine ⟨fun _ _ => ofText_eq_ok_iff, fun _ => ofText_eq_malformed, ?_, ?_,
    fun _ _ => ofDocument_eq_ok_iff⟩
  · intro a b c suffix ha hb hc hsuffix
    exact ofText_writtenRuns [] suffix.toList (by simp [writtenRuns]) nofun hsuffix ha hb hc
  · intro v hmajor hminor hpatch
    refine ⟨" " ++ v.numbers, by simp [text, toString, String.append_assoc], ?_⟩
    refine ofText_writtenRuns [' '] [] ?_ ?_ (.inl rfl) hmajor hminor hpatch
    · simp [numbers, writtenRuns, toString]
    · exact List.forall_mem_singleton.mpr rfl

theorem ofText_and_ofDocument_eq_ok_iff_samples :
    ofText .openapi "3" = .error (.malformed .openapi "3")
    ∧ ofText .openapi "3.0.3-rc" = .ok ⟨.openapi, 3, 0, 3⟩
    ∧ (∃ rest, (⟨.openapi, 3, 1, 0⟩ : Version).text = "openapi" ++ rest
      ∧ ofText .openapi rest = .ok ⟨.openapi, 3, 1, 0⟩)
    ∧ ofDocument (.ofFields [("swagger", .str "2.0")]) = .ok ⟨.swagger, 2, 0, 0⟩ := by
  obtain ⟨-, hmalformed, hwritten, htext, -⟩ := ofText_and_ofDocument_eq_ok_iff .openapi
  obtain ⟨hread, -, -, -, hdocument⟩ := ofText_and_ofDocument_eq_ok_iff .swagger
  refine ⟨?_, ?_, ?_, ?_⟩
  · refine hmalformed "3" fun major minor patch hspelled => ?_
    have hsome := splitRuns?_eq_some_iff.mpr ⟨major, minor, patch, hspelled, rfl, rfl, rfl⟩
    have hnone : splitRuns? (trim "3").toList = none := by decide
    rw [hnone] at hsome
    cases hsome
  · exact hwritten 3 0 3 "-rc" (by decide) (by decide) (by decide)
      (.inr ⟨'-', ['r', 'c'], rfl, .inl rfl, by decide⟩)
  · exact htext ⟨.openapi, 3, 1, 0⟩ (by decide) (by decide) (by decide)
  · have htwo : ofText .swagger "2.0" = .ok ⟨.swagger, 2, 0, 0⟩ := by
      refine (hread "2.0" ⟨.swagger, 2, 0, 0⟩).mpr ⟨['2'], ['0'], [], ?_, by decide, by decide,
        by decide, by decide⟩
      have hspelled : IsSpelled (['2'] ++ '.' :: (['0'] ++ [])) ['2'] ['0'] [] :=
        .two (by decide) (by decide) (.inl rfl)
      exact hspelled
    exact (hdocument _ _).mpr
      ⟨_, rfl, .inr ⟨by decide, .str "2.0", "2.0", rfl, .text "2.0", htwo, rfl⟩⟩

end Version

end ApiLint
