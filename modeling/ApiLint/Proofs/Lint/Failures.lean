import Mathlib.Algebra.Ring.Int.Defs
import ApiLint.Proofs.Document.Failures
import ApiLint.Proofs.Lint.Walks
import ApiLint.Proofs.Version

/-!
# Failures to load are reported

A linter reports that the schemas of a document cannot be built as one error about the structure of
the document. It does so for every document without an issue in its envelope, unless an integer is
beyond binary64, the version is too long to be read, or an alias leads to a component whose key is
no text. These three failures end the linting.
-/

namespace ApiLint

/-! ### Versions -/

namespace Version

lemma length_stripBlank_le (cs : List Char) : (Text.stripBlank cs).length ≤ cs.length := by
  have hdrop : ∀ cs : List Char, (Text.dropBlank cs).length ≤ cs.length := fun cs =>
    (List.dropWhile_sublist Text.isBlank).length_le
  calc (Text.stripBlank cs).length = (Text.dropBlank (Text.dropBlank cs).reverse).length := by
        rw [Text.stripBlank, List.length_reverse]
    _ ≤ (Text.dropBlank cs).reverse.length := hdrop _
    _ = (Text.dropBlank cs).length := List.length_reverse
    _ ≤ cs.length := hdrop _

/-- The runs of digits of a version are not longer than its text. -/
lemma length_splitRuns? {cs : List Char} {major minor patch : List Nat}
    (h : splitRuns? cs = some (major, minor, patch)) :
    major.length ≤ cs.length ∧ minor.length ≤ cs.length ∧ patch.length ≤ cs.length := by
  obtain ⟨major, minor, patch, hspelled, rfl, rfl, rfl⟩ := splitRuns?_eq_some_iff.mp h
  obtain ⟨hmajor, hminor, hpatch⟩ := hspelled.forall_digit
  rw [Text.length_digitValues hmajor, Text.length_digitValues hminor,
    Text.length_digitValues hpatch]
  cases hspelled with
  | two => simp; omega
  | three => simp; omega

/-- Reading a version fails in a way that is not reported only if its text is long. -/
lemma onlyFails_ofText (family : Family) (text : String) :
    OnlyFails (fun e => e.isReported = true ∨ NumberError.digitLimit < text.length)
      (ofText family text) := by
  have htrim : (Text.trim text).toList.length ≤ text.length := by
    rw [Text.trim, String.toList_ofList]
    exact length_stripBlank_le text.toList
  have hrun : ∀ run : List Nat, run.length ≤ (Text.trim text).toList.length →
      OnlyFails (fun e => e.isReported = true ∨ NumberError.digitLimit < text.length)
        (runValue run) := by
    intro run hlength
    rw [runValue]
    split
    · exact .error (.inr (by omega))
    · exact .ok _
  rw [ofText]
  split
  · exact .error (.inl rfl)
  · next major minor patch heq =>
    obtain ⟨hmajor, hminor, hpatch⟩ := length_splitRuns? heq
    apply OnlyFails.bind (hrun major hmajor)
    intro _ _
    apply OnlyFails.bind (hrun minor hminor)
    intro _ _
    apply OnlyFails.bind (hrun patch hpatch)
    exact fun _ _ => .ok _

end Version

/-! ### Documents -/

/-- A document with nothing that a linter does not get over: no integer beyond binary64, no version
with more characters than a number may have digits, and no alias to a component whose key is no
text. -/
structure Raw.IsWithinLimits (document : Raw) : Prop where
  number : ∀ n, .int n ∈ document.parts → (Binary64.ofInt? n).isSome
  version : ∀ (es : Entries) (family : Family) (raw : Raw) (text : String), document = .dict es →
    es.field? family.name = some raw → Version.declaredText? raw = some text →
    text.length ≤ NumberError.digitLimit
  reference : ∀ cs, Components.ofDocument document = .ok cs → ∀ e ∈ cs.entries, ∀ name ∈ cs.names,
    cs.referredName? e.2 = some name → (Entries.field? cs.entries name).isSome

/-- Within the limits, whatever the document holds can be written. -/
lemma Raw.IsWithinLimits.isWritable {document part : Raw} (h : document.IsWithinLimits)
    (hpart : part ∈ document.parts) : part.isWritable = true := by
  refine Raw.isWritable_of_mem_parts document (Raw.isWritable_of_forall_int document ?_) part hpart
  intro n hn
  obtain ⟨_, hx⟩ := Option.isSome_iff_exists.mp (h.number n hn)
  exact Number.isWritable_of_ofInt? hx

lemma Raw.IsWithinLimits.onlyFails_version {document : Raw} (h : document.IsWithinLimits) :
    OnlyFails (fun e => e.isReported = true) (Version.ofDocument document) := by
  cases document with
  | dict es =>
    rw [Version.ofDocument]
    split
    · next family raw heq =>
      obtain ⟨family', _, hfound⟩ := List.exists_of_findSome?_eq_some heq
      obtain ⟨raw', hraw, heq⟩ := Option.map_eq_some_iff.mp hfound
      cases heq
      have hwritable : raw.isWritable = true :=
        h.isWritable (Raw.parts_subset_of_field? hraw (Raw.mem_parts_self raw))
      have hnames : (Raw.requireTexts [raw]).mapError VersionError.number = .ok () :=
        mapError_eq_ok_iff.mpr (Raw.requireTexts_eq_ok_iff.mpr (by simpa using hwritable))
      apply OnlyFails.bind
      · rw [Version.ofRaw]
        refine OnlyFails.bind_ok hnames ?_
        split
        · next text htext =>
          intro e he
          have hlength := h.version es family raw text rfl hraw htext
          exact (Version.onlyFails_ofText family text e he).resolve_right (by omega)
        · exact .error rfl
      · intro version _
        rw [Version.requireSupported]
        split
        · exact .ok _
        · exact .error rfl
    · exact .error rfl
  | _ => exact .error rfl

namespace Components

variable {cs : Components}

lemma onlyFails_entriesAt (path keys : List String) (raw : Raw) :
    OnlyFails (fun e => e.isReported = true) (entriesAt path keys raw) := by
  induction keys generalizing raw with
  | nil =>
    cases raw with
    | dict entries => exact .ok _
    | _ => exact .error rfl
  | cons key keys ih =>
    cases raw with
    | dict entries => exact ih _
    | _ => exact .ok _

end Components

/-- Within the limits, whatever keeps the schemas of a document from being built is reported. -/
lemma Raw.IsWithinLimits.onlyFails_ofRaw {document : Raw}
    (henvelope : Envelope.issues document = .ok []) (h : document.IsWithinLimits) :
    OnlyFails (fun e => e.isReported = true) (LoadedDocument.ofRaw document) := by
  apply OnlyFails.bind
  · apply OnlyFails.bind
    · apply OnlyFails.mapError
      exact h.onlyFails_version
    · intro version _
      apply OnlyFails.bind (Components.onlyFails_entriesAt _ _ _)
      exact fun _ _ => .ok _
  · intro cs hcs e hfault
    have hadmitted : ∀ e ∈ cs.entries, Envelope.IsAdmitted e.2 :=
      fun e he => Envelope.isAdmitted_of_mem_components henvelope hcs he
    have hfails : OnlyFails cs.Fails (do
        Components.requireNames (cs.entries.map (·.1))
        cs.load cs.entries { version := cs.version }) := by
      apply OnlyFails.bind
      · apply Components.onlyFails_requireNames
        simp only [List.forall_mem_map]
        exact fun e he => (Raw.parts_subset_of_mem_dict he).1
      · exact fun _ _ => Components.onlyFails_load hadmitted (fun _ he => he) _
    cases hfails e hfault with
    | reported h => exact h
    | number hlarge =>
      obtain ⟨n, hn, hlarge⟩ := hlarge
      have hne : cs.entries ≠ [] := by
        intro hnil
        simp [hnil, Raw.parts, Raw.partsOfEntries] at hn
      have hsome := h.number n ((Components.route_schemasPath hcs hne).parts_subset hn)
      simp [hlarge] at hsome
    -- within the limits, names that are referred to are found among the keys
    | key he hname hmem hnone =>
      have hsome := h.reference cs hcs _ he _ hmem hname
      simp [hnone] at hsome

namespace Lint

/-- If the envelope of a document has no issues and the document is within the limits, then its
schemas can be built, or the linter reports why not, as one error about the structure of the
document. -/
theorem load_failures_are_reported {document : Raw} (henvelope : Envelope.issues document = .ok [])
    (hlimits : document.IsWithinLimits) :
    (∃ d, LoadedDocument.ofRaw document = .ok d)
      ∨ ∃ e, LoadedDocument.ofRaw document = .error e ∧ e.isReported = true
        ∧ ∀ rules places result, lintDocument rules places document result
          = ⟨result.addError { message := e.message, rule := some structureRule }, [], none⟩ := by
  cases hload : LoadedDocument.ofRaw document with
  | ok d => exact .inl ⟨d, rfl⟩
  | error e =>
    have hreported := hlimits.onlyFails_ofRaw henvelope e hload
    refine .inr ⟨e, rfl, hreported, ?_⟩
    intro rules places result
    rw [lintDocument_of_error henvelope hload, if_pos hreported]

/-- A document with a reference to a component that is not declared. -/
def danglingSchemas : Entries :=
  [(.int 200, .ofFields [("type", .str "number"), ("default", .int 7)]),
    (.str "Tag", .ofFields [("items", .ofFields [("$ref", .str "#/components/schemas/Label")])])]

def danglingDocument : Raw :=
  .ofFields [("openapi", .str "3.0.0"),
    ("components", .ofFields [("schemas", .dict danglingSchemas)])]

theorem load_failures_are_reported_dangling :
    Envelope.issues danglingDocument = .ok []
    ∧ danglingDocument.IsWithinLimits
    ∧ ∃ e, LoadedDocument.ofRaw danglingDocument = .error e ∧ e.isReported = true
      ∧ ∀ rules places result, lintDocument rules places danglingDocument result
        = ⟨result.addError { message := e.message, rule := some structureRule }, [], none⟩ := by
  have henvelope : Envelope.issues danglingDocument = .ok [] :=
    Envelope.issues_eq_ok_nil_iff_documentIssues.mpr (by decide +kernel)
  have hlimits : danglingDocument.IsWithinLimits := by
    constructor
    · intro n hn
      have hparts : n = 200 ∨ n = 7 := by
        simpa [danglingDocument, danglingSchemas, Raw.ofFields, Raw.parts, Raw.partsOfEntries]
          using hn
      rcases hparts with rfl | rfl <;> decide +kernel
    · intro es family raw text hes hraw htext
      cases hes
      cases family with
      | openapi =>
        change some (Raw.str "3.0.0") = some raw at hraw
        cases hraw
        cases htext
        decide
      | swagger => cases hraw
    · intro cs hcs e he name hmem hname
      change Except.ok (Components.mk ⟨.openapi, 3, 0, 0⟩ danglingSchemas) = .ok cs at hcs
      cases hcs
      have hnone : ∀ e ∈ danglingSchemas, (Components.reference? e.2).isNone := by decide +kernel
      rw [Components.referredName?, Option.isNone_iff_eq_none.mp (hnone e he)] at hname
      cases hname
  refine ⟨henvelope, hlimits, ?_⟩
  rcases load_failures_are_reported henvelope hlimits with ⟨d, hload⟩ | hreported
  · have hnone : (LoadedDocument.ofRaw danglingDocument).toOption.isSome = false := by
      decide +kernel
    simp [hload, Except.toOption] at hnone
  · exact hreported

/-- A document with an integer that is beyond binary64, as the literal of a number. -/
def overlargeDocument : Raw :=
  .ofFields [("openapi", .str "3.0.0"),
    ("components", .ofFields [("schemas", .ofFields [
      ("Mass", .ofFields [("type", .str "number"), ("default", .int (10 ^ 400))])])])]

/-- The error of a literal for which a document is not loaded. -/
def conversionError? : Except LoadError LoadedDocument → Option ConversionError
  | .error (.literal e) => some e
  | _ => none

/-- Its envelope has no issues, but linting it ends in a fault instead of a report. -/
theorem overlarge_document_not_reported :
    Envelope.issues overlargeDocument = .ok []
    ∧ (LoadError.literal .numberTooLarge).isReported = false
    ∧ ∀ rules places result, lintDocument rules places overlargeDocument result
      = ⟨result, [], some (.load (.literal .numberTooLarge))⟩ := by
  have henvelope : Envelope.issues overlargeDocument = .ok [] :=
    Envelope.issues_eq_ok_nil_iff_documentIssues.mpr (by decide +kernel)
  have hload : LoadedDocument.ofRaw overlargeDocument = .error (.literal .numberTooLarge) := by
    have herror : conversionError? (LoadedDocument.ofRaw overlargeDocument)
        = some .numberTooLarge := by decide +kernel
    generalize LoadedDocument.ofRaw overlargeDocument = loaded at herror
    unfold conversionError? at herror
    split at herror
    · cases herror
      rfl
    · cases herror
  refine ⟨henvelope, rfl, ?_⟩
  intro rules places result
  exact lintDocument_of_error henvelope hload result

end Lint

end ApiLint
