import ApiLint.Proofs.Matching.Fits
import ApiLint.Proofs.Number.Nearest

/-!
# What hints do to a literal

The type and the format under which a raw value is converted are hints. From the table of what the
value becomes it is read off that hints keep the value, but for integers that become numbers, days
that become midnights, and texts that read as dates; and that a schema accepts a value under its own
hints if it accepts it under any.
-/

namespace ApiLint

namespace Raw

/-- Whether a literal can hold the value as a scalar. -/
def isPlainScalar : Raw → Bool
  | .null | .bool _ | .int _ | .float _ | .str _ | .date _ | .dateTime _ => true
  | _ => false

/-- The base type of a scalar, whatever its size and its format. -/
def scalarType : Raw → String
  | .null => "null"
  | .bool _ => "boolean"
  | .int _ => "integer"
  | .float _ => "number"
  | _ => "string"

end Raw

namespace Literal

variable {raw type format : Raw} {kind : ScalarKind} {payload : Raw}

/-! ### What hints keep -/

lemma Becomes.baseType_of_asksNumber {n : Int} (h : Becomes type format (.int n) kind payload)
    (hasks : AsksNumber type format) : kind.baseType = "number" := by
  cases h with
  | integer hnumber => exact absurd hasks hnumber
  | long hnumber => exact absurd hasks hnumber
  | number htype hkind => rcases hkind with ⟨_, rfl⟩ | ⟨_, rfl⟩ <;> rfl

lemma Becomes.baseType_of_not_asksNumber (h : Becomes type format raw kind payload)
    (hnot : ∀ n, raw = .int n → ¬ AsksNumber type format) : kind.baseType = raw.scalarType := by
  cases h with
  | number htype hkind => exact absurd (asksNumber_of_kind htype hkind) (hnot _ rfl)
  | text htype hformat hkind => exact (textKind?_eq_some hkind).1
  | _ => rfl

lemma not_asksNumber_null : ¬ AsksNumber .null .null := nofun

lemma ofRaw_of_isPlainScalar (h : raw.isPlainScalar = true) :
    ofRaw type format raw = ofScalar raw type format := by
  cases raw with
  | bytes | list | pair | set | dict => cases h
  | _ => rfl

/-- Without hints every scalar becomes a literal that holds it. -/
lemma exists_becomes_unhinted (hraw : raw.isPlainScalar = true) :
    ∃ plain, Becomes .null .null raw plain raw := by
  cases raw with
  | null => exact ⟨_, .null⟩
  | bool b => exact ⟨_, .boolean b⟩
  | int n =>
    by_cases hsize : int32Min ≤ n ∧ n ≤ int32Max
    · exact ⟨_, .integer not_asksNumber_null (fun hlong => nomatch hlong.2) hsize⟩
    · exact ⟨_, .long not_asksNumber_null (.inr hsize)⟩
  | float x => exact ⟨_, .double x nofun⟩
  | str s => exact ⟨_, .string fun _ => ⟨rfl, nofun⟩⟩
  | date d => exact ⟨_, .date d nofun⟩
  | dateTime t => exact ⟨_, .dateTime t⟩
  | _ => cases hraw

/-- What hints may put in the place of a value: the number nearest to an integer, the midnight of a
day, and the day or the time that a text reads as. -/
inductive Rereads (type format : Raw) : Raw → Raw → Prop
  | number {n : Int} {x : Binary64} (hasks : AsksNumber type format) (hx : x.IsNearest n) :
      Rereads type format (.int n) (.float x)
  | midnight (d : Date) (hformat : format = .str "date-time") :
      Rereads type format (.date d) (.dateTime (DateTime.midnight d))
  | date {s : String} {d : Date} (htype : AsksText type) (hformat : format = .str "date")
      (hread : IsoText.date? s = some d) : Rereads type format (.str s) (.date d)
  | dateTime {s : String} {t : DateTime} (htype : AsksText type)
      (hformat : format = .str "date-time") (hread : IsoText.instant? s = some t) :
      Rereads type format (.str s) (.dateTime t)

lemma Becomes.rereads (h : Becomes type format raw kind payload) :
    Rereads type format raw payload
      ∨ payload = raw ∧ ∀ other, ¬ Rereads type format raw other := by
  cases h with
  | number htype hkind hx =>
    exact .inl (.number (asksNumber_of_kind htype hkind) (Binary64.isNearest_of_ofInt? hx))
  | midnight d hformat => exact .inl (.midnight d hformat)
  | readDate htype hformat hread => exact .inl (.date htype hformat hread)
  | readDateTime htype hformat hread => exact .inl (.dateTime htype hformat hread)
  | integer hnumber | long hnumber =>
    refine .inr ⟨rfl, fun _ hreads => ?_⟩
    cases hreads with
    | number hasks _ => exact hnumber hasks
  | date d hformat =>
    refine .inr ⟨rfl, fun _ hreads => ?_⟩
    cases hreads with
    | midnight _ hformat' => exact hformat hformat'
  -- the formats that make a kind of any text are not those that make it read as a date
  | text htype hformat hkind =>
    refine .inr ⟨rfl, fun _ hreads => ?_⟩
    cases hreads with
    | date _ hformat' _ | dateTime _ hformat' _ =>
      cases hformat.symm.trans hformat'
      cases hkind
  | string hplain =>
    refine .inr ⟨rfl, fun _ hreads => ?_⟩
    cases hreads with
    | date htype hformat hread =>
      rw [((hplain htype).2 _ hformat).2.1 rfl] at hread
      cases hread
    | dateTime htype hformat hread =>
      rw [((hplain htype).2 _ hformat).2.2 rfl] at hread
      cases hread
  | null | boolean | float | double | dateTime => exact .inr ⟨rfl, nofun⟩

/-- Under any hints under which a scalar becomes a literal, the literal has the base type that it
has without hints, but for an integer, which is a number exactly under the type `number` with no
format or `float`. It holds the scalar itself, but for what hints put in its place. -/
theorem hints_keep_literals (hraw : raw.isPlainScalar = true) {value : Literal}
    (h : ofRaw type format raw = .ok value) :
    ∃ kind payload plain, value = .scalar kind payload
      ∧ ofRaw .null .null raw = .ok (.scalar plain raw)
      ∧ (∀ n, raw = .int n → (kind.baseType = "number" ↔ AsksNumber type format))
      ∧ (kind.baseType ≠ plain.baseType → (∃ n, raw = .int n) ∧ AsksNumber type format)
      ∧ (Rereads type format raw payload
        ∨ payload = raw ∧ ∀ other, ¬ Rereads type format raw other) := by
  rw [ofRaw_of_isPlainScalar hraw] at h ⊢
  obtain ⟨kind, payload, rfl, hbecomes⟩ := becomes_of_ofScalar h
  obtain ⟨plain, hplain⟩ := exists_becomes_unhinted hraw
  have hplain_type : plain.baseType = raw.scalarType :=
    hplain.baseType_of_not_asksNumber fun _ _ => not_asksNumber_null
  refine ⟨kind, payload, plain, rfl, ofScalar_of_becomes hplain, ?_, ?_, hbecomes.rereads⟩
  · rintro n rfl
    constructor
    · intro hnumber
      by_contra hnot
      rw [hbecomes.baseType_of_not_asksNumber fun _ _ => hnot] at hnumber
      simp [Raw.scalarType] at hnumber
    · exact hbecomes.baseType_of_asksNumber
  · intro hne
    by_contra hnot
    refine hne ?_
    rw [hplain_type, hbecomes.baseType_of_not_asksNumber fun n hn hasks => hnot ⟨⟨n, hn⟩, hasks⟩]

/-- An integer halfway between two numbers becomes the even one. -/
theorem hints_keep_literals_halfway :
    (Raw.int (2 ^ 53 + 1)).isPlainScalar = true
    ∧ ofRaw (.str "number") .null (.int (2 ^ 53 + 1))
      = .ok (.scalar .double (.float (.finite false (2 ^ 52) 1)))
    ∧ ofRaw .null .null (.int (2 ^ 53 + 1)) = .ok (.scalar .long (.int (2 ^ 53 + 1)))
    ∧ Rereads (.str "number") .null (.int (2 ^ 53 + 1)) (.float (.finite false (2 ^ 52) 1)) := by
  have hraw : (Raw.int (2 ^ 53 + 1)).isPlainScalar = true := rfl
  have hx : Binary64.ofInt? (2 ^ 53 + 1) = some (.finite false (2 ^ 52) 1) := by decide +kernel
  have h : ofRaw (.str "number") .null (.int (2 ^ 53 + 1))
      = .ok (.scalar .double (.float (.finite false (2 ^ 52) 1))) := by
    rw [ofRaw_of_isPlainScalar hraw]
    exact ofScalar_of_becomes (.number rfl (.inr ⟨rfl, rfl⟩) hx)
  obtain ⟨kind, payload, plain, hvalue, hplain, _, _, hreads⟩ := hints_keep_literals hraw h
  cases hvalue
  refine ⟨hraw, h, rfl, hreads.resolve_right fun hkept => ?_⟩
  cases hkept.1

end Literal

namespace Matching

open Literal (Becomes)

variable {g : Graph} {schema : Child} {place : Nat} {node : Node} {raw type format payload : Raw}
  {kind : ScalarKind}

lemma accepts_of_mismatches (hnode : g.resolve schema = .ok (place, node)) {pointer : Pointer}
    (h : mismatches g schema pointer (.scalar kind payload) = .ok []) :
    (node.type.isNull || acceptsOutright node kind || fitsScalar node kind) = true := by
  rw [mismatches_scalar hnode] at h
  split at h
  · assumption
  · cases h

/-- The type and the format of a kind, taken as hints, give the kind again. -/
lemma becomes_of_kind (h : Becomes type format raw kind payload) :
    Becomes (.str kind.baseType) ((kind.format?.map Raw.str).getD .null) raw kind payload := by
  cases h with
  | null => exact .null
  | boolean b => exact .boolean b
  | integer _ _ hsize =>
    exact .integer (by simp [Literal.AsksNumber, ScalarKind.baseType])
      (by simp [Literal.AsksLong, ScalarKind.format?]) hsize
  | long =>
    exact .long (by simp [Literal.AsksNumber, ScalarKind.baseType]) (.inl ⟨.inr rfl, rfl⟩)
  | number _ hkind hx =>
    rcases hkind with ⟨_, rfl⟩ | ⟨_, rfl⟩
    · exact .number rfl (.inl ⟨rfl, rfl⟩) hx
    · exact .number rfl (.inr ⟨rfl, rfl⟩) hx
  | float x => exact .float x rfl
  | double x => exact .double x (by simp [ScalarKind.format?])
  | dateTime t => exact .dateTime t
  | midnight d => exact .midnight d rfl
  | date d => exact .date d (by simp [ScalarKind.format?])
  | text _ _ hkind =>
    obtain ⟨hbase, hformat⟩ := Literal.textKind?_eq_some hkind
    rw [hbase, hformat]
    exact .text (.inr rfl) rfl hkind
  | readDate _ _ hread => exact .readDate (.inr rfl) rfl hread
  | readDateTime _ _ hread => exact .readDateTime (.inr rfl) rfl hread
  | string => exact .string fun _ => ⟨rfl, by simp [ScalarKind.format?]⟩

/-- What a value becomes under some hints and a typed node accepts, the value becomes under the
hints of the node. -/
lemma becomes_own (h : Becomes type format raw kind payload)
    (haccepts : (acceptsOutright node kind || fitsScalar node kind) = true) :
    Becomes node.type node.format raw kind payload := by
  rw [Bool.or_eq_true] at haccepts
  rcases haccepts with houtright | hfits
  · rw [acceptsOutright_eq] at houtright
    split at houtright
    · cases h with
      | null => exact .null
      | number _ hkind => simp at hkind
      | text _ _ hkind => cases (Literal.textKind?_eq_some hkind).2
    · have hobject := Raw.isText_iff.mp houtright
      cases h with
      | number _ hkind => simp at hkind
      | text _ _ hkind => cases (Literal.textKind?_eq_some hkind).2
      | string => exact .string fun hasks => by simp [Literal.AsksText, hobject] at hasks
    · cases houtright
  · rw [fitsScalar, Bool.and_eq_true, Raw.isText_iff, sameFormat_iff] at hfits
    rw [hfits.1, hfits.2]
    exact becomes_of_kind h

/-- Without a type every scalar becomes a literal, whatever the format: an integer that is too large
for a number does not become one. -/
lemma exists_ofRaw_untyped (hraw : raw.isPlainScalar = true) (hformat : format.isKey = true) :
    ∃ value, Literal.ofRaw .null format raw = .ok value := by
  rw [Literal.ofRaw_of_isPlainScalar hraw]
  cases raw with
  | int n =>
    by_cases hlong : Literal.AsksLong .null format ∨ ¬ (Literal.int32Min ≤ n ∧ n ≤ Literal.int32Max)
    · exact ⟨_, Literal.ofScalar_of_becomes (.long nofun hlong)⟩
    · rw [not_or, not_not] at hlong
      exact ⟨_, Literal.ofScalar_of_becomes (.integer nofun hlong.1 hlong.2)⟩
  | str s =>
    rw [Literal.ofScalar]
    unfold Literal.ofText
    rw [if_pos (Literal.asksText_iff.mpr (.inl rfl))]
    split
    · exact ⟨_, rfl⟩
    · rw [if_pos hformat]
      exact ⟨_, rfl⟩
  | date d =>
    rw [Literal.ofScalar]
    split
    · exact ⟨_, rfl⟩
    · exact ⟨_, rfl⟩
  | bytes | list | pair | set | dict => cases hraw
  | _ => exact ⟨_, rfl⟩

/-- The hints of a schema are the best ones: if a scalar becomes a literal that the schema accepts
under some hints, or under none, it does so under the type and the format of the schema. The format
may be any text, or absent. -/
theorem accepts_under_own_hints (hnode : g.resolve schema = .ok (place, node))
    (hformat : node.format.isKey = true) (hraw : raw.isPlainScalar = true) {pointer : Pointer}
    {value : Literal} (hvalue : Literal.ofRaw type format raw = .ok value)
    (haccepts : mismatches g schema pointer value = .ok []) :
    ∃ own, Literal.ofRaw node.type node.format raw = .ok own
      ∧ mismatches g schema pointer own = .ok [] := by
  rw [Literal.ofRaw_of_isPlainScalar hraw] at hvalue
  obtain ⟨kind, payload, rfl, hbecomes⟩ := Literal.becomes_of_ofScalar hvalue
  cases htype : node.type.isNull with
  | true =>
    obtain ⟨own, hown⟩ := exists_ofRaw_untyped hraw hformat
    rw [Raw.isNull_iff.mp htype]
    refine ⟨own, hown, ?_⟩
    rw [Literal.ofRaw_of_isPlainScalar hraw] at hown
    obtain ⟨kind, payload, rfl, _⟩ := Literal.becomes_of_ofScalar hown
    rw [mismatches_scalar hnode, htype]
    rfl
  | false =>
    have hkind := accepts_of_mismatches hnode haccepts
    rw [htype, Bool.false_or] at hkind
    refine ⟨_, ?_, haccepts⟩
    rw [Literal.ofRaw_of_isPlainScalar hraw]
    exact Literal.ofScalar_of_becomes (becomes_own hbecomes hkind)

end Matching

/-- A schema of days, alone in its graph. -/
def Graph.ofDays : Graph :=
  ⟨#[{ SchemaNode.blank with type := .str "string", format := .str "date" }]⟩

/-- A text that the format alone makes a leap day is accepted as a day under the schema of days. -/
theorem Matching.accepts_under_own_hints_leap :
    ∃ d, IsoText.date? "2024-02-29" = some d
      ∧ ∃ own, Literal.ofRaw (.str "string") (.str "date") (.str "2024-02-29") = .ok own
        ∧ mismatches .ofDays (.node 0) Pointer.root own = .ok [] := by
  obtain ⟨d, hd⟩ : ∃ d, IsoText.date? "2024-02-29" = some d := by
    rw [← Option.isSome_iff_exists]
    decide +kernel
  have hnode : Graph.ofDays.resolve (.node 0)
      = .ok (0, { SchemaNode.blank with type := .str "string", format := .str "date" }) := rfl
  have hhinted : Literal.ofRaw .null (.str "date") (.str "2024-02-29")
      = .ok (.scalar .date (.date d)) :=
    Literal.ofScalar_of_becomes (.readDate (.inl rfl) rfl hd)
  refine ⟨d, hd, Matching.accepts_under_own_hints hnode rfl rfl hhinted ?_⟩
  rw [mismatches_scalar hnode]
  rfl

end ApiLint
