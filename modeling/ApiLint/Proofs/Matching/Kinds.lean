import Mathlib.Tactic.Common
import ApiLint.Proofs.Matching.Equations

/-!
# The kinds of scalars

The type and the format under which a raw value is converted choose among the kinds that the value
can have. One table says what a value that holds no others becomes: it has a row for each way in
which the conversion ends, and says all that the conversion does.
-/

namespace ApiLint

namespace Literal

/-- The hints under which an integer is long whatever its size. -/
def AsksLong (type format : Raw) : Prop :=
  (type = .null ∨ type = .str "integer") ∧ format = .str "int64"

/-- The hints under which an integer is a number. -/
def AsksNumber (type format : Raw) : Prop :=
  type = .str "number" ∧ (format = .null ∨ format = .str "float")

/-- The types under which the format of a text counts. -/
def AsksText (type : Raw) : Prop := type = .null ∨ type = .str "string"

/-- A format that leaves a text as it is. -/
def LeavesText (s : String) (format : Raw) : Prop :=
  format.isKey = true ∧ ∀ f, format = .str f →
    textKind? f = none ∧ (f = "date" → IsoText.date? s = none)
      ∧ (f = "date-time" → IsoText.instant? s = none)

/-- What a raw value that holds no others becomes under a type and a format: the kind of the
literal, and what it holds. -/
inductive Becomes (type format : Raw) : Raw → ScalarKind → Raw → Prop
  | null : Becomes type format .null .null .null
  | boolean (b : Bool) : Becomes type format (.bool b) .boolean (.bool b)
  | integer {n : Int} (hnumber : ¬ AsksNumber type format) (hlong : ¬ AsksLong type format)
      (hsize : int32Min ≤ n ∧ n ≤ int32Max) : Becomes type format (.int n) .integer (.int n)
  | long {n : Int} (hnumber : ¬ AsksNumber type format)
      (hlong : AsksLong type format ∨ ¬ (int32Min ≤ n ∧ n ≤ int32Max)) :
      Becomes type format (.int n) .long (.int n)
  | number {n : Int} {kind : ScalarKind} {x : Binary64} (htype : type = .str "number")
      (hkind : format = .str "float" ∧ kind = .float ∨ format = .null ∧ kind = .double)
      (hx : Binary64.ofInt? n = some x) : Becomes type format (.int n) kind (.float x)
  | float (x : Binary64) (hformat : format = .str "float") :
      Becomes type format (.float x) .float (.float x)
  | double (x : Binary64) (hformat : format ≠ .str "float") :
      Becomes type format (.float x) .double (.float x)
  | dateTime (t : DateTime) : Becomes type format (.dateTime t) .dateTime (.dateTime t)
  | midnight (d : Date) (hformat : format = .str "date-time") :
      Becomes type format (.date d) .dateTime (.dateTime (DateTime.midnight d))
  | date (d : Date) (hformat : format ≠ .str "date-time") :
      Becomes type format (.date d) .date (.date d)
  | text {s f : String} {kind : ScalarKind} (htype : AsksText type) (hformat : format = .str f)
      (hkind : textKind? f = some kind) : Becomes type format (.str s) kind (.str s)
  | readDate {s : String} {d : Date} (htype : AsksText type) (hformat : format = .str "date")
      (hread : IsoText.date? s = some d) : Becomes type format (.str s) .date (.date d)
  | readDateTime {s : String} {t : DateTime} (htype : AsksText type)
      (hformat : format = .str "date-time") (hread : IsoText.instant? s = some t) :
      Becomes type format (.str s) .dateTime (.dateTime t)
  | string {s : String} (hplain : AsksText type → LeavesText s format) :
      Becomes type format (.str s) .string (.str s)

variable {raw type format : Raw} {kind : ScalarKind} {payload : Raw}

lemma asksLong_iff :
    ((type.isNull || type.isText "integer") && format.isText "int64") = true
      ↔ AsksLong type format := by
  rw [Bool.and_eq_true, Bool.or_eq_true, Raw.isNull_iff, Raw.isText_iff, Raw.isText_iff, AsksLong]

lemma asksText_iff : (type.isNull || type.isText "string") = true ↔ AsksText type := by
  rw [Bool.or_eq_true, Raw.isNull_iff, Raw.isText_iff, AsksText]

lemma AsksLong.not_asksNumber (h : AsksLong type format) : ¬ AsksNumber type format := by
  rintro ⟨rfl, _⟩
  rcases h with ⟨htype | htype, _⟩
  · cases htype
  · simp at htype

lemma asksNumber_of_kind (htype : type = .str "number")
    (hkind : format = .str "float" ∧ kind = .float ∨ format = .null ∧ kind = .double) :
    AsksNumber type format :=
  ⟨htype, hkind.symm.imp And.left And.left⟩

lemma ofIntAs_eq_ok_iff {n : Int} {value : Literal} :
    ofIntAs kind n = .ok value
      ↔ ∃ x, Binary64.ofInt? n = some x ∧ value = .scalar kind (.float x) := by
  unfold ofIntAs
  split
  · next x hx => simp [hx, eq_comm]
  · next hx => simp [hx]

lemma becomes_of_ofInt {n : Int} {value : Literal} (h : ofInt n type format = .ok value) :
    ∃ kind payload, value = .scalar kind payload ∧ Becomes type format (.int n) kind payload := by
  unfold ofInt at h
  split at h
  · next hlong =>
    cases h
    rw [asksLong_iff] at hlong
    exact ⟨_, _, rfl, .long hlong.not_asksNumber (.inl hlong)⟩
  · next hlong =>
    rw [asksLong_iff] at hlong
    split at h
    · next hfloat =>
      rw [Bool.and_eq_true, Raw.isText_iff, Raw.isText_iff] at hfloat
      obtain ⟨x, hx, rfl⟩ := ofIntAs_eq_ok_iff.mp h
      exact ⟨_, _, rfl, .number hfloat.1 (.inl ⟨hfloat.2, rfl⟩) hx⟩
    · next hfloat =>
      rw [Bool.and_eq_true, Raw.isText_iff, Raw.isText_iff] at hfloat
      split at h
      · next hdouble =>
        rw [Bool.and_eq_true, Raw.isText_iff, Raw.isNull_iff] at hdouble
        obtain ⟨x, hx, rfl⟩ := ofIntAs_eq_ok_iff.mp h
        exact ⟨_, _, rfl, .number hdouble.1 (.inr ⟨hdouble.2, rfl⟩) hx⟩
      · next hdouble =>
        rw [Bool.and_eq_true, Raw.isText_iff, Raw.isNull_iff] at hdouble
        -- Neither format that goes with a number is there, and so no number is asked for.
        have hnumber : ¬ AsksNumber type format := by
          rintro ⟨htype, hformat | hformat⟩
          · exact hdouble ⟨htype, hformat⟩
          · exact hfloat ⟨htype, hformat⟩
        split at h
        · next hsize =>
          cases h
          exact ⟨_, _, rfl, .integer hnumber hlong hsize⟩
        · next hsize =>
          cases h
          exact ⟨_, _, rfl, .long hnumber (.inr hsize)⟩

lemma becomes_of_ofTextAs {s f : String} (htype : AsksText type) :
    ∃ kind payload, ofTextAs s f = .scalar kind payload
      ∧ Becomes type (.str f) (.str s) kind payload := by
  unfold ofTextAs
  split
  · next kind hkind => exact ⟨_, _, rfl, .text htype rfl hkind⟩
  · next hkind =>
    by_cases hdate : f = "date"
    · subst hdate
      cases hread : IsoText.date? s with
      | some d => exact ⟨_, _, rfl, .readDate htype rfl hread⟩
      | none =>
        refine ⟨_, _, rfl, .string fun _ => ⟨rfl, ?_⟩⟩
        rintro f ⟨rfl⟩
        exact ⟨rfl, fun _ => hread, by simp⟩
    · by_cases htime : f = "date-time"
      · subst htime
        cases hread : IsoText.instant? s with
        | some t => exact ⟨_, _, rfl, .readDateTime htype rfl hread⟩
        | none =>
          refine ⟨_, _, rfl, .string fun _ => ⟨rfl, ?_⟩⟩
          rintro f ⟨rfl⟩
          exact ⟨rfl, by simp, fun _ => hread⟩
      · refine ⟨.string, .str s, by simp [hdate, htime], .string fun _ => ⟨rfl, ?_⟩⟩
        rintro f ⟨rfl⟩
        exact ⟨hkind, by simp [hdate], by simp [htime]⟩

lemma becomes_of_ofText {s : String} {value : Literal} (h : ofText s type format = .ok value) :
    ∃ kind payload, value = .scalar kind payload ∧ Becomes type format (.str s) kind payload := by
  unfold ofText at h
  split at h
  · next htype =>
    rw [asksText_iff] at htype
    split at h
    · next f =>
      cases h
      exact becomes_of_ofTextAs htype
    · next hnot =>
      split at h
      · next hkey =>
        cases h
        exact ⟨_, _, rfl, .string fun _ => ⟨hkey, fun f hf => absurd hf (hnot f)⟩⟩
      · cases h
  · next htype =>
    cases h
    exact ⟨_, _, rfl, .string fun hasks => absurd (asksText_iff.mpr hasks) htype⟩

lemma becomes_of_ofScalar {value : Literal} (h : ofScalar raw type format = .ok value) :
    ∃ kind payload, value = .scalar kind payload ∧ Becomes type format raw kind payload := by
  cases raw with
  | null => cases h; exact ⟨_, _, rfl, .null⟩
  | bool b => cases h; exact ⟨_, _, rfl, .boolean b⟩
  | int n => exact becomes_of_ofInt h
  | float x =>
    cases h
    split
    · next hformat => exact ⟨_, _, rfl, .float x (Raw.isText_iff.mp hformat)⟩
    · next hformat => exact ⟨_, _, rfl, .double x (mt Raw.isText_iff.mpr hformat)⟩
  | str s => exact becomes_of_ofText h
  | date d =>
    rw [ofScalar] at h
    split at h
    · next hformat => cases h; exact ⟨_, _, rfl, .midnight d (Raw.isText_iff.mp hformat)⟩
    · next hformat => cases h; exact ⟨_, _, rfl, .date d (mt Raw.isText_iff.mpr hformat)⟩
  | dateTime t => cases h; exact ⟨_, _, rfl, .dateTime t⟩
  | _ => cases h

/-- Where the hints ask for no kind, the size of an integer decides. -/
lemma ofInt_of_not_asked {n : Int} (hnumber : ¬ AsksNumber type format)
    (hlong : ¬ AsksLong type format) :
    ofInt n type format = if int32Min ≤ n ∧ n ≤ int32Max then .ok (.scalar .integer (.int n))
      else .ok (.scalar .long (.int n)) := by
  rw [ofInt, if_neg (mt asksLong_iff.mp hlong), if_neg, if_neg]
  · rw [Bool.and_eq_true, Raw.isText_iff, Raw.isNull_iff]
    exact fun h => hnumber ⟨h.1, .inl h.2⟩
  · rw [Bool.and_eq_true, Raw.isText_iff, Raw.isText_iff]
    exact fun h => hnumber ⟨h.1, .inr h.2⟩

lemma ofTextAs_of_leavesText {s f : String} (h : LeavesText s (.str f)) :
    ofTextAs s f = .scalar .string (.str s) := by
  obtain ⟨hkind, hdate, htime⟩ := h.2 f rfl
  simp only [ofTextAs, hkind]
  by_cases hf : f = "date"
  · simp [hf, hdate hf]
  · by_cases hf' : f = "date-time"
    · simp [hf', htime hf']
    · simp [hf, hf']

/-- The table says all that the conversion does. -/
lemma ofScalar_of_becomes (h : Becomes type format raw kind payload) :
    ofScalar raw type format = .ok (.scalar kind payload) := by
  cases h with
  | null | boolean | dateTime => rfl
  | integer hnumber hlong hsize => rw [ofScalar, ofInt_of_not_asked hnumber hlong, if_pos hsize]
  | long hnumber hlong =>
    by_cases hasks : AsksLong type format
    · rw [ofScalar, ofInt, if_pos (asksLong_iff.mpr hasks)]
    · rw [ofScalar, ofInt_of_not_asked hnumber hasks, if_neg (hlong.resolve_left hasks)]
  | number htype hkind hx =>
    rcases hkind with ⟨rfl, rfl⟩ | ⟨rfl, rfl⟩
    · simp [ofScalar, ofInt, htype, Raw.isText, Raw.isNull, ofIntAs, hx]
    · simp [ofScalar, ofInt, htype, Raw.isText, Raw.isNull, ofIntAs, hx]
  | float x hformat => simp [ofScalar, hformat, Raw.isText]
  | double x hformat => simp [ofScalar, Raw.isText_eq_false_iff.mpr hformat]
  | midnight d hformat => simp [ofScalar, hformat, Raw.isText]
  | date d hformat => simp [ofScalar, Raw.isText_eq_false_iff.mpr hformat]
  | text htype hformat hkind =>
    simp [ofScalar, ofText, asksText_iff.mpr htype, hformat, ofTextAs, hkind]
  | readDate htype hformat hread =>
    simp [ofScalar, ofText, asksText_iff.mpr htype, hformat, ofTextAs, textKind?, hread]
  | readDateTime htype hformat hread =>
    simp [ofScalar, ofText, asksText_iff.mpr htype, hformat, ofTextAs, textKind?, hread]
  | string hplain =>
    rw [ofScalar]
    unfold ofText
    by_cases htype : AsksText type
    · rw [if_pos (asksText_iff.mpr htype)]
      split
      · rw [ofTextAs_of_leavesText (hplain htype)]
      · rw [if_pos (hplain htype).1]
    · rw [if_neg (mt asksText_iff.mp htype)]

/-- What holds no other values is converted under its own hints. -/
lemma ofRaw_plain (hlist : ∀ items, raw ≠ .list items) (hpair : ∀ k v, raw ≠ .pair k v)
    (hdict : ∀ es, raw ≠ .dict es) : ofRaw type format raw = ofScalar raw type format := by
  rw [ofRaw]
  · exact hlist
  · exact hpair
  · exact hdict

lemma textKind?_eq_some_iff {f : String} :
    textKind? f = some kind ↔ f = "password" ∧ kind = .password ∨ f = "byte" ∧ kind = .byte
      ∨ f = "binary" ∧ kind = .binary := by
  unfold textKind?
  split
  · simp [eq_comm]
  · simp [eq_comm]
  · simp [eq_comm]
  · next hpassword hbyte hbinary =>
    refine ⟨nofun, ?_⟩
    rintro (⟨hf, -⟩ | ⟨hf, -⟩ | ⟨hf, -⟩)
    · exact (hpassword hf).elim
    · exact (hbyte hf).elim
    · exact (hbinary hf).elim

lemma textKind?_eq_some {f : String} (h : textKind? f = some kind) :
    kind.baseType = "string" ∧ kind.format? = some f := by
  rcases textKind?_eq_some_iff.mp h with ⟨rfl, rfl⟩ | ⟨rfl, rfl⟩ | ⟨rfl, rfl⟩
  all_goals exact ⟨rfl, rfl⟩

end Literal

end ApiLint
