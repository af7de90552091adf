import ApiLint.Proofs.Lint.Findings

/-!
# Type mismatches agree with the document

A checker of literals that looks at nothing but the document: it goes through the schemas in line of
every component that is no alias, through their literals, and through each literal together with the
raw schemas that govern its parts. A linter adds an entry of the rule of type mismatches for each
departure that this checker finds, in the same order.
-/

namespace ApiLint

namespace Components

/-- The places of the literals of a document that depart from their schemas: for each component
without a reference as its body, in order of declaration; for each schema in line of it, itself the
first; for its default, its example and the members of its enumeration, as far as they are there;
for each departing part that is in no other. -/
def departingPointers (cs : Components) : List Pointer :=
  cs.entries.flatMap fun (key, body) =>
    match body.inline? with
    | none => []
    | some es =>
      es.inlineSchemas.flatMap fun s =>
        s.entries.rawLiterals.flatMap fun (segments, raw) =>
          (cs.departures (.dict s.entries) raw).map fun path =>
            (cs.pointerTo key.text).join (s.segments ++ segments ++ path)

/-- Whether a finding is one of the matcher. -/
def isMismatch (f : Finding) : Bool := f.rule == Matching.ruleName

variable {cs : Components}

lemma filter_memberFindings {rule : String} (hrule : rule ≠ Matching.ruleName) (pointer : Pointer)
    (property : String) (index : Nat) (raw : Raw) :
    (cs.memberFindings rule pointer property index raw).filter isMismatch = [] := by
  rw [List.filter_eq_nil_iff]
  intro f hf
  have hsame := (eq_of_mem_memberFindings hf).1
  simpa [isMismatch, hsame] using hrule

lemma filter_compositionFindings (es : Entries) (kind : CompositionKind) (pointer : Pointer) :
    (cs.compositionFindings es kind pointer).filter isMismatch = [] := by
  unfold compositionFindings
  split
  · next rule property hrule _ =>
    have hne : rule ≠ Matching.ruleName := by
      cases kind <;> cases hrule <;> decide
    rw [List.filter_flatMap, List.flatMap_eq_nil_iff]
    exact fun e _ => filter_memberFindings hne _ _ _ _
  · rfl

lemma filter_literalFindings (es : Entries) (pointer : Pointer) :
    (cs.literalFindings es pointer).filter isMismatch = cs.literalFindings es pointer := by
  rw [List.filter_eq_self]
  intro f hf
  obtain ⟨l, _, hf⟩ := List.mem_flatMap.mp hf
  obtain ⟨path, _, rfl⟩ := List.mem_map.mp hf
  rfl

/-- The mismatches among the findings about a component. -/
lemma pointers_inlineFindings (es : Entries) (base : Pointer) :
    ((cs.inlineFindings es base).filter isMismatch).map Finding.pointer
      = es.inlineSchemas.flatMap fun s => s.entries.rawLiterals.flatMap fun l =>
        (cs.departures (.dict s.entries) l.2).map fun path =>
          base.join (s.segments ++ l.1 ++ path) := by
  rw [inlineFindings, List.filter_flatMap, List.map_flatMap]
  refine List.flatMap_congr fun s _ => ?_
  rw [schemaFindings, List.filter_append, List.filter_append, filter_compositionFindings,
    filter_compositionFindings, filter_literalFindings, List.nil_append, List.nil_append,
    literalFindings, List.map_flatMap]
  refine List.flatMap_congr fun l _ => ?_
  rw [mismatchesAt, List.map_map]
  refine List.map_congr_left fun path _ => ?_
  change ((base.join s.segments).join l.1).through path = _
  rw [Pointer.through_eq_join (Pointer.isEmpty_join ..), Pointer.join_join, Pointer.join_join,
    List.append_assoc]

/-- The mismatches among the findings about a document. -/
lemma pointers_componentFindings :
    (cs.componentFindings.flatten.filter isMismatch).map Finding.pointer
      = cs.departingPointers := by
  rw [componentFindings, departingPointers]
  induction cs.entries with
  | nil => rfl
  | cons e entries ih =>
    obtain ⟨key, body⟩ := e
    rw [List.filterMap_cons, List.flatMap_cons, ← ih]
    dsimp only
    cases body.inline? with
    | none => rfl
    | some es =>
      dsimp only [Option.map_some]
      rw [List.flatten_cons, List.filter_append, List.map_append, pointers_inlineFindings]

end Components

namespace Lint

/-- Linting a text-keyed document with the rules of the library, whose envelope has no issues, whose
components have names that are not empty, and whose schemas can be built, comes to an end without a
fault. The entries of the rule of type mismatches that it adds have the pointers of the departing
literals of the document, in the same order. -/
theorem type_mismatches_of_document {document : Raw} (hdocument : document.isTextKeyed = true)
    {cs : Components} (hcs : Components.ofDocument document = .ok cs) (hnames : "" ∉ cs.names)
    (henvelope : Envelope.issues document = .ok []) {d : LoadedDocument}
    (hload : LoadedDocument.ofRaw document = .ok d) (places : SourceMap) (result : LintResult) :
    (lintDocument RuleSet.builtin places document result).fault = none
      ∧ ∃ added, (lintDocument RuleSet.builtin places document result).result.errors
          = result.errors ++ added
        ∧ (added.filter fun e => e.rule == some Matching.ruleName).map LintEntry.pointer
          = cs.departingPointers.map some := by
  rw [lintDocument_of_ok henvelope hload]
  obtain ⟨hfault, herrors⟩ := lintLoaded_builtin hdocument hcs hload hnames places result
  refine ⟨hfault, _, herrors, ?_⟩
  have hrule : (fun e : LintEntry => e.rule == some Matching.ruleName)
      ∘ findingEntry result.file places = Components.isMismatch := by
    funext f
    simp [findingEntry, entryAt, Components.isMismatch]
  rw [List.filter_map, hrule, List.map_map, ← Components.pointers_componentFindings, List.map_map]
  rfl

theorem type_mismatches_of_document_sample :
    ∃ added, (lintDocument RuleSet.builtin [] sampleDocument default).result.errors = [] ++ added
      ∧ (added.filter fun e => e.rule == some Matching.ruleName).map LintEntry.pointer
        = [some "#/components/schemas/Tag/example", some "#/components/schemas/Pet/default/a~1b/1",
          some "#/components/schemas/Pet/oneOf/enum/1"] := by
  obtain ⟨d, hload⟩ := ofRaw_sample
  obtain ⟨_, added, herrors, hadded⟩ := type_mismatches_of_document (by decide +kernel)
    ofDocument_sample (by decide +kernel) issues_sample hload [] default
  have hpointers : sampleComponents.departingPointers = ["#/components/schemas/Tag/example",
      "#/components/schemas/Pet/default/a~1b/1", "#/components/schemas/Pet/oneOf/enum/1"] := by
    decide +kernel
  rw [hpointers] at hadded
  exact ⟨added, herrors, hadded⟩

end Lint

end ApiLint
