import Mathlib.Tactic.Common
import ApiLint.Lint.Document

/-!
# The walks of a linter

A linter walks the components of a loaded document that are no aliases, one after the other, each up
to the components that it refers to. If none of the walks ends in a fault, what the linter adds to a
result are entries for the findings of the walks, in order.
-/

namespace ApiLint

/-- The findings that a walk comes to; none after a fault. -/
def Walk.Outcome.reported (o : Walk.Outcome) : List Finding := o.findings.toOption.getD []

namespace LoadedDocument

/-- The walks from components, the first of which has the given place. -/
def walksFrom (rules : RuleSet) (d : LoadedDocument) (place : Nat)
    (components : List (String × Component)) : List Walk.Outcome :=
  (components.zipIdx place).filterMap fun ((name, component), place) =>
    if (Fields.find? d.aliases name).isSome then none
    else some ((Walker.mk rules component.pointer true).walk d.graph (.node place))

/-- The walks that a linter performs on a document. -/
def walks (rules : RuleSet) (d : LoadedDocument) : List Walk.Outcome :=
  d.walksFrom rules 0 d.components

end LoadedDocument

namespace Lint

/-- The entry for a finding. -/
def findingEntry (file : FilePath) (places : SourceMap) (f : Finding) : LintEntry :=
  entryAt file places f.message f.rule f.pointer

variable {rules : RuleSet} {places : SourceMap} {d : LoadedDocument}

lemma walkComponents_errors {place : Nat} {components : List (String × Component)}
    (h : ∀ w ∈ d.walksFrom rules place components, ∃ fs, w.findings = .ok fs)
    (result : LintResult) :
    (walkComponents rules places d d.graph place components result).fault = none
      ∧ (walkComponents rules places d d.graph place components result).result.errors
        = result.errors ++ ((d.walksFrom rules place components).flatMap Walk.Outcome.reported).map
          (findingEntry result.file places) := by
  induction components generalizing place result with
  | nil => exact ⟨rfl, by simp [walkComponents, LoadedDocument.walksFrom]⟩
  | cons c components ih =>
    obtain ⟨name, component⟩ := c
    rw [walkComponents]
    cases halias : Fields.find? d.aliases name with
    -- An alias is not walked, but it takes its place among the nodes.
    | some target =>
      have hrest : d.walksFrom rules place ((name, component) :: components)
          = d.walksFrom rules (place + 1) components := by
        simp [LoadedDocument.walksFrom, halias]
      rw [hrest] at h ⊢
      exact ih h result
    | none =>
      let walk := (Walker.mk rules component.pointer true).walk d.graph (.node place)
      have hrest : d.walksFrom rules place ((name, component) :: components)
          = walk :: d.walksFrom rules (place + 1) components := by
        simp [LoadedDocument.walksFrom, halias, walk]
      rw [hrest] at h ⊢
      obtain ⟨findings, hfindings⟩ := h walk (List.mem_cons_self ..)
      have hhere : walkComponent rules places d.graph place name component result
          = ⟨result.addErrors (findings.map (findingEntry result.file places)),
            walk.log ++ [.debug logger s!"Schema '{name}': {findings.length} finding(s)"],
            none⟩ := by
        rw [walkComponent]
        dsimp only
        rw [show ((Walker.mk rules component.pointer true).walk d.graph (.node place)).findings
          = .ok findings from hfindings]
        rfl
      obtain ⟨hfault, herrors⟩ := ih (fun w hw => h w (List.mem_cons_of_mem _ hw))
        (result.addErrors (findings.map (findingEntry result.file places)))
      dsimp only
      rw [hhere]
      dsimp only
      refine ⟨hfault, ?_⟩
      rw [herrors, List.flatMap_cons, List.map_append, Walk.Outcome.reported, hfindings]
      simp [LintResult.addErrors, Except.toOption]

/-- If no walk of a loaded document ends in a fault, linting it adds entries for the findings. -/
lemma lintLoaded_errors (h : ∀ w ∈ d.walks rules, ∃ fs, w.findings = .ok fs) (result : LintResult) :
    (lintLoaded rules places d result).fault = none
      ∧ (lintLoaded rules places d result).result.errors
        = result.errors ++ ((d.walks rules).flatMap Walk.Outcome.reported).map
          (findingEntry result.file places) := by
  rw [lintLoaded]
  dsimp only
  split
  · next hempty =>
    have hnone : d.components = [] := by simpa using hempty
    refine ⟨rfl, ?_⟩
    simp [LintResult.addWarning, LoadedDocument.walks, LoadedDocument.walksFrom, hnone]
  · exact walkComponents_errors h result

/-- If every walk of a loaded document comes to findings, linting it adds entries for them all. -/
lemma lintLoaded_of_findings {all : List (List Finding)}
    (h : (d.walks rules).map Walk.Outcome.findings = all.map .ok) (result : LintResult) :
    (lintLoaded rules places d result).fault = none
      ∧ (lintLoaded rules places d result).result.errors
        = result.errors ++ all.flatten.map (findingEntry result.file places) := by
  have hok : ∀ w ∈ d.walks rules, ∃ fs, w.findings = .ok fs := by
    intro w hw
    have hmem := List.mem_map_of_mem (f := Walk.Outcome.findings) hw
    rw [h, List.mem_map] at hmem
    obtain ⟨fs, _, hfs⟩ := hmem
    exact ⟨fs, hfs.symm⟩
  have hreported : (d.walks rules).flatMap Walk.Outcome.reported = all.flatten := by
    calc (d.walks rules).flatMap Walk.Outcome.reported
        = ((d.walks rules).map Walk.Outcome.findings).flatMap
            fun outcome => outcome.toOption.getD [] := by rw [List.flatMap_map]; rfl
      _ = all.flatten := by
        rw [h, List.flatMap_map, List.flatten_eq_flatMap]
        rfl
  rw [← hreported]
  exact lintLoaded_errors hok result

variable {document : Raw}

/-- If the examination of its envelope fails, so does the linting of a document. -/
lemma lintDocument_of_unshown {e : NumberError} (henvelope : Envelope.issues document = .error e)
    (result : LintResult) :
    lintDocument rules places document result = ⟨result, [], some (.envelope e)⟩ := by
  rw [lintDocument, henvelope]

/-- If its envelope has issues, these are all that is reported about a document. -/
lemma lintDocument_of_issues {is : List EnvelopeIssue}
    (henvelope : Envelope.issues document = .ok is)
    (hne : is ≠ []) (result : LintResult) :
    lintDocument rules places document result
      = ⟨result.addErrors (issueEntries result.file places is), [], none⟩ := by
  rw [lintDocument, henvelope]
  cases is with
  | nil => exact absurd rfl hne
  | cons i is => rfl

/-- Without issues in its envelope, the error for which the schemas of a document cannot be built is
reported or raised. -/
lemma lintDocument_of_error (henvelope : Envelope.issues document = .ok []) {e : LoadError}
    (hload : LoadedDocument.ofRaw document = .error e) (result : LintResult) :
    lintDocument rules places document result
      = if e.isReported then
          ⟨result.addError { message := e.message, rule := some structureRule }, [], none⟩
        else ⟨result, [], some (.load e)⟩ := by
  rw [lintDocument, henvelope]
  dsimp only
  rw [hload]

/-- Linting a document without issues in its envelope, whose schemas can be built, is linting these
schemas. -/
lemma lintDocument_of_ok (henvelope : Envelope.issues document = .ok [])
    (hload : LoadedDocument.ofRaw document = .ok d) (result : LintResult) :
    lintDocument rules places document result = lintLoaded rules places d result := by
  rw [lintDocument, henvelope]
  dsimp only
  rw [hload]

end Lint

end ApiLint
