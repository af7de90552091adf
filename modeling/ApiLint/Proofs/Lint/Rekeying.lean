import ApiLint.Lint.Document
import ApiLint.Proofs.Document.Likeness
import ApiLint.Proofs.Document.Rekeying
import ApiLint.Proofs.Rule.Total

/-!
# Rekeyed documents are linted alike

The envelope of a document asks nothing of the keys that are names, and the schemas of a rekeyed
document are the same if each name that is looked up is found as it is. A property that has an
integer for its key is not found when the members of a literal are read, and then the member is
governed by something else than its property.
-/

namespace ApiLint

/-! ### Envelopes -/

namespace Envelope

@[simp] lemma holds_rekey (type : ValueType) (role : Role) (raw : Raw) :
    type.holds (raw.rekey role) = type.holds raw := by
  cases type <;> cases raw <;> rfl

lemma sameSort_rekey {role : Role} {raw : Raw} (h : raw.writesNames role = true) :
    SameSort raw (raw.rekey role) :=
  ⟨fun type => holds_rekey type role raw, Raw.isWritable_rekey raw role h⟩

/-- Rekeying changes nothing that an examination asks for, if all names can be written. -/
lemma isLikeness_rekey :
    IsLikeness fun role raw raw' => raw.writesNames role = true ∧ raw' = raw.rekey role where
  sort := by
    rintro _ _ _ ⟨hnames, rfl⟩
    exact sameSort_rekey hnames
  plain := by
    rintro value _ ⟨-, rfl⟩
    exact Raw.rekey_plain value
  schema := by
    rintro es es' ⟨hnames, hes⟩
    rw [Raw.rekey, Raw.rekeyEntries_eq_map] at hes
    cases hes
    rw [List.forall₂_map_right_iff, List.forall₂_same]
    intro e he
    have hvalue := Raw.writesNames_under hnames e he
    refine ⟨Raw.rekey_plain e.1, sameSort_rekey hvalue, fun name keyword role hkeyword hrole => ?_⟩
    rw [under_of_keyword? hkeyword hrole] at hvalue ⊢
    exact ⟨hvalue, rfl⟩
  schemaMap := by
    rintro es es' ⟨hnames, hes⟩
    rw [Raw.rekey, Raw.rekeyEntries_eq_map] at hes
    cases hes
    rw [List.forall₂_map_right_iff, List.forall₂_same]
    intro e he
    have hvalue := Raw.writesNames_under hnames e he
    rw [Role.under_schemaMap] at hvalue ⊢
    exact ⟨(Raw.isWritable_of_writesNames rfl hnames e he).symm, hvalue, rfl⟩
  schemaList := by
    rintro items items' ⟨hnames, hitems⟩
    rw [Raw.rekey, Raw.rekeyAll_eq_map] at hitems
    cases hitems
    rw [List.forall₂_map_right_iff, List.forall₂_same]
    exact fun item hitem => ⟨Raw.writesAllNames_iff.mp hnames item hitem, rfl⟩

lemma examinedAlike_schemaMap_rekey {raw : Raw} (h : raw.writesNames .schemaMap = true)
    (path path' : List String) :
    ExaminedAlike (schemaMapIssues path raw) (schemaMapIssues path' (raw.rekey .schemaMap))
      (schemaMapShown raw) (schemaMapShown (raw.rekey .schemaMap)) :=
  (isLikeness_rekey.relatedAlike raw _).schemaMap ⟨h, rfl⟩ path path'

lemma examinedAlike_components_rekey {raw : Raw} (h : raw.writesNames .components = true)
    (path : List String) :
    ExaminedAlike (componentsIssues path raw) (componentsIssues path (raw.rekey .components))
      (componentsShown raw) (componentsShown (raw.rekey .components)) := by
  cases raw with
  | dict es =>
    rw [Raw.rekey, componentsIssues, componentsIssues, componentsShown, componentsShown,
      Entries.field?_rekeyEntries rfl rfl]
    cases hschemas : Entries.field? es "schemas" with
    | none => exact .nil
    | some schemas =>
      exact examinedAlike_schemaMap_rekey (Entries.writesNames_of_field? h hschemas) _ _
  | _ => exact .single (Raw.isWritable_rekey _ _ h)

/-- The examination of a rekeyed document finds issues exactly if that of the document does, and
fails exactly if that does. -/
lemma examinedAlike_rekey {document : Raw} (h : document.writesNames .document = true) :
    ExaminedAlike (documentIssues document) (documentIssues (document.rekey .document))
      (documentShown document) (documentShown (document.rekey .document)) := by
  have hsort := sameSort_rekey h
  cases document with
  | dict es =>
    have hopenapi : Entries.field? (Raw.rekeyEntries .document es) "openapi"
        = Entries.field? es "openapi" := Entries.field?_rekeyEntries_plain rfl rfl rfl
    have hswagger : Entries.field? (Raw.rekeyEntries .document es) "swagger"
        = Entries.field? es "swagger" := Entries.field?_rekeyEntries_plain rfl rfl rfl
    have hcomponents : Entries.field? (Raw.rekeyEntries .document es) "components"
        = (Entries.field? es "components").map (Raw.rekey .components) :=
      Entries.field?_rekeyEntries rfl rfl
    have hdefinitions : Entries.field? (Raw.rekeyEntries .document es) "definitions"
        = (Entries.field? es "definitions").map (Raw.rekey .schemaMap) :=
      Entries.field?_rekeyEntries rfl rfl
    simp only [Raw.rekey, documentIssues, documentShown, fieldsIssues, fieldsShown, hopenapi,
      hswagger, hcomponents, hdefinitions] at hsort ⊢
    refine .append ?_ (.append (.append ⟨Iff.rfl, rfl⟩ ?_) ?_)
    · split
      · exact .nil
      · exact .single hsort.writable
    · cases hfield : Entries.field? es "components" with
      | none => exact .nil
      | some components =>
        exact examinedAlike_components_rekey (Entries.writesNames_of_field? h hfield) _
    · cases hfield : Entries.field? es "definitions" with
      | none => exact .nil
      | some definitions =>
        exact examinedAlike_schemaMap_rekey (Entries.writesNames_of_field? h hfield) _ _
  | _ => exact .single hsort.writable

/-- The envelope of a rekeyed document has no issues if and only if that of the document has none.
-/
lemma issues_rekey_iff {document : Raw} (h : document.writesNames .document = true) :
    issues (document.rekey .document) = .ok [] ↔ issues document = .ok [] := by
  have halike := examinedAlike_rekey h
  rw [issues_eq_ok_nil_iff_documentIssues, issues_eq_ok_nil_iff_documentIssues, halike.issues,
    ← Raw.requireTexts_eq_ok_iff, ← Raw.requireTexts_eq_ok_iff, halike.requireTexts_eq]

end Envelope

namespace Lint

/-- If its names can be written, a document that finds its names gives the same schemas as the
rekeyed document, or the same error; and both are linted alike, if the envelope has no issues, which
name the keys. -/
theorem rekeyed_documents_are_alike {document : Raw}
    (hnames : document.writesNames .document = true)
    (h : ∀ cs, Components.ofDocument document = .ok cs → cs.FindNames) :
    LoadedDocument.ofRaw (document.rekey .document) = LoadedDocument.ofRaw document
    ∧ (Envelope.issues (document.rekey .document) = .ok [] ↔ Envelope.issues document = .ok [])
    ∧ (Envelope.issues document = .ok [] → ∀ rules places result,
      lintDocument rules places (document.rekey .document) result
        = lintDocument rules places document result) := by
  have hissues := Envelope.issues_rekey_iff hnames
  have hload := LoadedDocument.ofRaw_rekey hnames h
  refine ⟨hload, hissues, fun henvelope rules places result => ?_⟩
  rw [lintDocument, lintDocument, henvelope, hissues.mpr henvelope, hload]

/-- Schemas in which statuses are names, as integers. -/
def statusSchemas : Entries :=
  [(.int 200, .ofFields [("type", .str "integer"), ("default", .int 7)]),
    (.str "Reply", .ofFields [("properties", .dict [
      (.int 404, .ofFields [("$ref", .str "#/components/schemas/Fault")])])]),
    (.str "Fault", .ofFields [("example", .dict [(.bool true, .int 1)])])]

def statusDocument : Raw :=
  .ofFields [("openapi", .str "3.0.0"),
    ("components", .ofFields [("schemas", .dict statusSchemas)])]

theorem rekeyed_documents_are_alike_status :
    statusDocument.writesNames .document = true
    ∧ (∀ cs, Components.ofDocument statusDocument = .ok cs → cs.FindNames)
    ∧ Envelope.issues statusDocument = .ok []
    ∧ LoadedDocument.ofRaw (statusDocument.rekey .document) = LoadedDocument.ofRaw statusDocument
    ∧ ∀ rules places result,
      lintDocument rules places (statusDocument.rekey .document) result
        = lintDocument rules places statusDocument result := by
  have henvelope : Envelope.issues statusDocument = .ok [] :=
    Envelope.issues_eq_ok_nil_iff_documentIssues.mpr (by decide +kernel)
  have hfind : ∀ cs, Components.ofDocument statusDocument = .ok cs → cs.FindNames := by
    intro cs hcs
    change Except.ok (Components.mk ⟨.openapi, 3, 0, 0⟩ statusSchemas) = .ok cs at hcs
    cases hcs
    have hshallow : ∀ e ∈ statusSchemas, (Components.reference? e.2).isNone
        ∧ ∀ es, e.2.inline? = some es →
          ∀ child ∈ (Entries.outline es).children, child.2.inline?.isNone := by
      decide +kernel
    have hreference : ∀ e ∈ statusSchemas,
        Components.referredName? ⟨⟨.openapi, 3, 0, 0⟩, statusSchemas⟩ e.2 = none := by
      intro e he
      rw [Components.referredName?, Option.isNone_iff_eq_none.mp (hshallow e he).1]
    constructor
    · intro e he name hname
      simp [hreference e he] at hname
    · intro e he es hes
      apply Components.FindsAllNames.of_outline
      · have hown := hreference e he
        intro l hl
        simp only [statusSchemas, List.mem_cons, List.not_mem_nil, or_false] at he
        rcases he with rfl | rfl | rfl
        · cases hes
          change l ∈ [(["default"], Raw.int 7)] at hl
          cases List.mem_singleton.mp hl
          exact .of_scalar hown (by simp) (by simp)
        · cases hes
          cases hl
        · cases hes
          change l ∈ [(["example"], Raw.dict [(.bool true, .int 1)])] at hl
          cases List.mem_singleton.mp hl
          refine .of_members hown ?_ ?_
          · rintro fields hfields e -
            cases hfields
            intro entry hentry
            cases hentry
          · intro e he member hmember
            cases List.mem_singleton.mp he
            cases hmember
            exact .of_scalar rfl (by simp) (by simp)
      · intro child hchild below hbelow
        simp [Option.isNone_iff_eq_none.mp ((hshallow e he).2 es hes child hchild)] at hbelow
  have hnames : statusDocument.writesNames .document = true := by decide +kernel
  obtain ⟨hload, -, hlint⟩ := rekeyed_documents_are_alike hnames hfind
  exact ⟨hnames, hfind, henvelope, hload, hlint henvelope⟩

/-- A document with a literal that has an integer for a key, as has the property that governs the
member under it. -/
def statusDefaultDocument : Raw :=
  .ofFields [("openapi", .str "3.0.0"),
    ("components", .ofFields [("schemas", .ofFields [
      ("Replies", .ofFields [("type", .str "object"),
        ("properties", .dict [
          (.int 200, .ofFields [("type", .str "integer"), ("format", .str "int64")])]),
        ("default", .dict [(.int 200, .int 5)])])])])]

/-- The member does not take the format of the property, unless the document is rekeyed. -/
theorem status_default_not_found :
    Envelope.issues statusDefaultDocument = .ok []
    ∧ (lintDocument RuleSet.builtin [] statusDefaultDocument default).result.errors.map
        LintEntry.pointer = [some "#/components/schemas/Replies/default/200"]
    ∧ (lintDocument RuleSet.builtin [] (statusDefaultDocument.rekey .document)
        default).result.errors.map LintEntry.pointer = [] := by
  refine ⟨?_, by decide +kernel, by decide +kernel⟩
  exact Envelope.issues_eq_ok_nil_iff_documentIssues.mpr (by decide +kernel)

end Lint

end ApiLint
