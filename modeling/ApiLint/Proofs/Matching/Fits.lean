import ApiLint.Proofs.Matching.Kinds

/-!
# Raw values that fit a schema

When a raw value that holds no others fits a type and a format, put down on the raw value itself.
The conversion of the value under type and format, and the match of the literal against a schema
that declares the two, come to the same.
-/

namespace ApiLint

namespace Raw

/-- Whether an integer has 32 bits. -/
def isInt32 (n : Int) : Bool := decide (Literal.int32Min ≤ n ∧ n ≤ Literal.int32Max)

/-- Whether a text has a format of texts. Passwords and bytes may be any text; dates and times must
read as such. -/
def hasFormat (s : String) (format : Raw) : Bool :=
  format.isNull || format.isText "password" || format.isText "byte" || format.isText "binary"
    || (format.isText "date" && (IsoText.date? s).isSome)
    || (format.isText "date-time" && (IsoText.instant? s).isSome)

/-- Whether a value that holds no others fits a type and a format, which are null if they are
absent. A text may encode an object. -/
def fits (raw : Raw) (nullable : Bool) (type format : Raw) : Bool :=
  match raw with
  | .null => nullable || (type.isText "null" && format.isNull)
  | .bool _ => type.isText "boolean" && format.isNull
  | .int n =>
    (type.isText "integer" && (format.isText "int64" || (format.isNull && isInt32 n)))
      || (type.isText "number" && (format.isNull || format.isText "float"))
  | .float _ => type.isText "number" && (format.isNull || format.isText "float")
  | .str s => type.isText "object" || (type.isText "string" && hasFormat s format)
  | .date _ => type.isText "string" && (format.isText "date" || format.isText "date-time")
  | .dateTime _ => type.isText "string" && format.isText "date-time"
  | _ => false

end Raw

namespace Matching

variable {node : Node}

/-- What is accepted whatever its base type: null under a nullable schema, and plain texts under the
type `object`. -/
lemma acceptsOutright_eq (kind : ScalarKind) :
    acceptsOutright node kind
      = match kind with
        | .null => node.nullable
        | .string => node.type.isText "object"
        | _ => false := by
  cases kind <;> simp [acceptsOutright, show ∀ k l : ScalarKind, (k == l) = decide (k = l) from
    fun _ _ => rfl]

lemma sameFormat_iff {carried : Option String} {declared : Raw} :
    sameFormat carried declared = true ↔ declared = (carried.map Raw.str).getD .null := by
  cases carried with
  | none => exact Raw.isNull_iff
  | some f => exact Raw.isText_iff

/-- A text has a format that leaves it as it is only if the format is absent. -/
lemma hasFormat_of_leavesText {s : String} {format : Raw} (h : Literal.LeavesText s format) :
    Raw.hasFormat s format = format.isNull := by
  cases format with
  | str f =>
    obtain ⟨hkind, hdate, htime⟩ := h.2 f rfl
    have hpassword : f ≠ "password" := by rintro rfl; cases hkind
    have hbyte : f ≠ "byte" := by rintro rfl; cases hkind
    have hbinary : f ≠ "binary" := by rintro rfl; cases hkind
    simpa [Raw.hasFormat, Raw.isText, Raw.isNull, hpassword, hbyte, hbinary] using
      And.intro hdate htime
  | _ => simp [Raw.hasFormat, Raw.isText]

/-- The literal of a raw value matches a schema that declares its type and format exactly if the raw
value fits. -/
lemma accepts_of_becomes {raw payload : Raw} {kind : ScalarKind} (htype : node.type ≠ .null)
    (h : Literal.Becomes node.type node.format raw kind payload) :
    (acceptsOutright node kind || fitsScalar node kind)
      = raw.fits node.nullable node.type node.format := by
  rw [Bool.eq_iff_iff, acceptsOutright_eq, fitsScalar, Bool.or_eq_true, Bool.and_eq_true,
    Raw.isText_iff, sameFormat_iff]
  have hstring : Literal.AsksText node.type → node.type = .str "string" := (·.resolve_left htype)
  cases h with
  | integer hnumber hlong hsize | long hnumber hlong =>
    simp only [Literal.AsksNumber, Literal.AsksLong] at hnumber hlong
    simp only [Raw.fits, Raw.isInt32, ScalarKind.baseType, ScalarKind.format?, Raw.isText_iff,
      Raw.isNull_iff, Bool.or_eq_true, Bool.and_eq_true, decide_eq_true_eq, Option.map_some,
      Option.map_none, Option.getD_some, Option.getD_none]
    grind
  | number hnumber hkind hx =>
    rcases hkind with ⟨hformat, rfl⟩ | ⟨hformat, rfl⟩
    · simp [Raw.fits, ScalarKind.baseType, ScalarKind.format?, Raw.isText_iff, hnumber, hformat]
    · simp [Raw.fits, ScalarKind.baseType, ScalarKind.format?, Raw.isText_iff, Raw.isNull_iff,
        hnumber, hformat]
  -- Every text has the formats that make a kind of any text.
  | text hasks hformat hkind =>
    rcases Literal.textKind?_eq_some_iff.mp hkind with ⟨rfl, rfl⟩ | ⟨rfl, rfl⟩ | ⟨rfl, rfl⟩
    all_goals
      simp [Raw.fits, Raw.hasFormat, ScalarKind.baseType, ScalarKind.format?, Raw.isText_iff,
        hstring hasks, hformat]
  | readDate hasks hformat hread | readDateTime hasks hformat hread =>
    simp [Raw.fits, Raw.hasFormat, ScalarKind.baseType, ScalarKind.format?, Raw.isText_iff,
      hstring hasks, hformat, hread]
  | string hplain =>
    have hplain' : node.type = .str "string" → Raw.hasFormat _ node.format = node.format.isNull :=
      fun htype => hasFormat_of_leavesText (hplain (.inr htype))
    simp only [Raw.fits, ScalarKind.baseType, ScalarKind.format?, Raw.isText_iff, Bool.or_eq_true,
      Bool.and_eq_true, Option.map_none, Option.getD_none]
    refine or_congr_right (and_congr_right fun htype => ?_)
    rw [hplain' htype, Raw.isNull_iff]
  | float x hformat | double x hformat =>
    simp [Raw.fits, ScalarKind.baseType, ScalarKind.format?, Raw.isText_iff, Raw.isNull_iff,
      hformat]
  | midnight d hformat | date d hformat =>
    simp [Raw.fits, ScalarKind.baseType, ScalarKind.format?, Raw.isText_iff, hformat]
  | null | boolean | dateTime =>
    simp [Raw.fits, ScalarKind.baseType, ScalarKind.format?, Raw.isText_iff, Raw.isNull_iff]

end Matching

end ApiLint
