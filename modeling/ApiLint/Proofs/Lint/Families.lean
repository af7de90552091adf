import ApiLint.Proofs.Document.Relocation
import ApiLint.Proofs.Lint.Envelopes
import ApiLint.Proofs.Lint.Walkable
import ApiLint.Proofs.Walk.Rebasing

/-!
# Both families are linted alike

The families of formats keep the component schemas in different places. A document of the one family
and the document of the other with the same component schemas have the same issues, load alike, and
have the same findings, each as far below the place of the components.
-/

namespace ApiLint

namespace LoadedDocument

variable {document : Raw} {d d' : LoadedDocument} {base base' : Pointer}

/-- What the walks of a document come to, those of the same document with its components in another
place come to there. -/
lemma SameBelow.forall₂_walks (h : d.SameBelow base base' d') (hbase : base.isEmpty = false)
    (hbase' : base'.isEmpty = false) {rules : RuleSet} (hrules : rules.rules ⊆ Rule.builtin) :
    List.Forall₂ (fun w w' => FoundAlike (Pointer.Rebased base base') w.findings w'.findings)
      (d.walks rules) (d'.walks rules) := by
  refine List.rel_filterMap ?_ (forall₂_zipIdx h.components 0)
  rintro ⟨⟨name, component⟩, place⟩ ⟨⟨_, component'⟩, _⟩ ⟨⟨rfl, -, hpointer, hpointer'⟩, rfl⟩
  dsimp only at hpointer hpointer' ⊢
  rw [← h.aliases]
  split
  · exact .none
  · have hrebased : Pointer.Rebased base base' component.pointer component'.pointer := by
      refine ⟨[name], ?_, ?_⟩
      · rw [hpointer, Pointer.join, Pointer.orRoot, hbase]
        rfl
      · rw [hpointer', Pointer.join, Pointer.orRoot, hbase']
        rfl
    rw [h.graph_eq]
    exact .some <|
      Walk.findings_walk_alike (Pointer.goesOn_rebased base base') hrules hrebased true _

end LoadedDocument

namespace Lint

/-- A document of the first family that declares component schemas and nothing else. -/
def openapiDocument (schemas : Entries) : Raw :=
  .ofFields [("openapi", .str "3.0.0"), ("components", .ofFields [("schemas", .dict schemas)])]

/-- A document of the second family that declares component schemas and nothing else. -/
def swaggerDocument (schemas : Entries) : Raw :=
  .ofFields [("swagger", .str "2.0"), ("definitions", .dict schemas)]

/-- The component schemas of a document of the first family as those of one of the second. -/
def asDefinitions (schemas : Entries) : Entries :=
  Raw.redirectEntries (Raw.relocate "#/components/schemas" "#/definitions") [] .schemaMap schemas

variable {schemas : Entries}

lemma ofDocument_openapi :
    Components.ofDocument (openapiDocument schemas) = .ok ⟨⟨.openapi, 3, 0, 0⟩, schemas⟩ := by
  cases schemas <;> rfl

lemma ofDocument_swagger :
    Components.ofDocument (swaggerDocument schemas) = .ok ⟨⟨.swagger, 2, 0, 0⟩, schemas⟩ := by
  cases schemas <;> rfl

lemma documentIssues_openapi : Envelope.documentIssues (openapiDocument schemas)
    = Envelope.namedSchemasIssues ["components", "schemas"] schemas := by
  change [] ++ ([] ++ [] ++ Envelope.namedSchemasIssues ["components", "schemas"] schemas ++ []) = _
  simp only [List.nil_append, List.append_nil]

lemma documentIssues_swagger : Envelope.documentIssues (swaggerDocument schemas)
    = Envelope.namedSchemasIssues ["definitions"] schemas := by
  change [] ++ ([] ++ [] ++ [] ++ Envelope.namedSchemasIssues ["definitions"] schemas) = _
  simp only [List.nil_append]

lemma documentShown_openapi : Envelope.documentShown (openapiDocument schemas)
    = Envelope.namedSchemasShown schemas := by
  change [] ++ ([] ++ [] ++ Envelope.namedSchemasShown schemas ++ []) = _
  simp only [List.nil_append, List.append_nil]

lemma documentShown_swagger : Envelope.documentShown (swaggerDocument schemas)
    = Envelope.namedSchemasShown schemas := by
  change [] ++ ([] ++ [] ++ [] ++ Envelope.namedSchemasShown schemas) = _
  simp only [List.nil_append]

/-- A reference is of the same sort when it leads to below another pointer. -/
lemma sameSort_relocate (path : List String) (raw : Raw) :
    Envelope.SameSort raw (Raw.relocate "#/components/schemas" "#/definitions" path raw) := by
  cases raw <;> exact ⟨fun type => by cases type <;> rfl, rfl⟩

/-- The issues of the two documents are at the same places below their component schemas. -/
lemma forall₂_orderedIssues :
    List.Forall₂ (fun i i' => Pointer.Rebased "#/components/schemas" "#/definitions" i.pointer
        i'.pointer)
      (Envelope.orderedIssues (openapiDocument schemas))
      (Envelope.orderedIssues (swaggerDocument (asDefinitions schemas))) := by
  rw [Envelope.orderedIssues, Envelope.orderedIssues, documentIssues_openapi,
    documentIssues_swagger]
  have hissues : Envelope.SameIssues ["components", "schemas"] ["definitions"]
      (Envelope.namedSchemasIssues ["components", "schemas"] schemas)
      (Envelope.namedSchemasIssues ["definitions"] (asDefinitions schemas)) :=
    Envelope.sameIssues_namedSchemasIssues sameSort_relocate schemas _ _ _
  refine (forall₂_mergeSort hissues fun _ _ _ _ h h' => h.le_eq h').imp ?_
  rintro i i' ⟨rest, hi, hi'⟩
  refine ⟨rest, ?_, ?_⟩
  · rw [EnvelopeIssue.pointer, hi, ← Pointer.join_join]
    rfl
  · rw [EnvelopeIssue.pointer, hi', ← Pointer.join_join]
    rfl

/-- Both examinations fail, or they find issues at the same places. -/
lemma comparable_issues :
    Comparable (List.Forall₂ fun i i' =>
        Pointer.Rebased "#/components/schemas" "#/definitions" i.pointer i'.pointer)
      (Envelope.issues (openapiDocument schemas))
      (Envelope.issues (swaggerDocument (asDefinitions schemas))) := by
  have hshown : Raw.requireTexts (Envelope.namedSchemasShown (asDefinitions schemas))
      = Raw.requireTexts (Envelope.namedSchemasShown schemas) :=
    ((Envelope.isLikeness_redirect sameSort_relocate).relatedAlike (.dict schemas) _).schemaMap
      ⟨[], rfl⟩ [] [] |>.requireTexts_eq
  rw [Envelope.issues, Envelope.issues, documentShown_openapi, documentShown_swagger, hshown]
  cases Raw.requireTexts (Envelope.namedSchemasShown schemas) with
  | error e => exact .errors e e
  | ok _ => exact .ok forall₂_orderedIssues

/-- Component schemas that refer to nothing but component schemas are linted alike in a document of
either family. The examinations of the envelopes both fail, or they find issues at the same places
below the component schemas; if one document loads then so does the other, with the same names,
graph and aliases; and the walks come to findings that say the same in the same order, each as far
below the component schemas, or both to the same fault, of which there is none if the envelope has
no issues. -/
theorem families_are_linted_alike
    (hreferences : ∀ r ∈ (Raw.dict schemas).references .schemaMap,
      ∃ rest, r = .str ("#/components/schemas/" ++ rest)) :
    Comparable (List.Forall₂ fun i i' =>
        Pointer.Rebased "#/components/schemas" "#/definitions" i.pointer i'.pointer)
      (Envelope.issues (openapiDocument schemas))
      (Envelope.issues (swaggerDocument (asDefinitions schemas)))
    ∧ ((∃ d, LoadedDocument.ofRaw (openapiDocument schemas) = .ok d)
      ↔ ∃ d', LoadedDocument.ofRaw (swaggerDocument (asDefinitions schemas)) = .ok d')
    ∧ ∀ d d', LoadedDocument.ofRaw (openapiDocument schemas) = .ok d →
      LoadedDocument.ofRaw (swaggerDocument (asDefinitions schemas)) = .ok d' →
      d'.names = d.names ∧ d'.graph = d.graph ∧ d'.aliases = d.aliases
        ∧ List.Forall₂ (fun w w' =>
            FoundAlike (Pointer.Rebased "#/components/schemas" "#/definitions") w.findings
              w'.findings)
          (d.walks RuleSet.builtin) (d'.walks RuleSet.builtin)
        ∧ (Envelope.issues (openapiDocument schemas) = .ok [] →
          ∀ w ∈ d.walks RuleSet.builtin, ∃ fs, w.findings = .ok fs) := by
  have hrelocates : Components.RelocatesTo ⟨⟨.openapi, 3, 0, 0⟩, schemas⟩
      ⟨⟨.swagger, 2, 0, 0⟩, asDefinitions schemas⟩ :=
    Components.relocatesTo_of_redirect hreferences rfl
  have hload := LoadedDocument.comparable_ofRaw ofDocument_openapi ofDocument_swagger hrelocates
  refine ⟨comparable_issues, hload.exists_ok_iff, ?_⟩
  intro d d' hd hd'
  have hsame := hload.rel hd hd'
  refine ⟨hsame.names_eq, hsame.graph_eq, hsame.aliases.symm,
    hsame.forall₂_walks rfl rfl fun _ hrule => hrule, fun henvelope w hw => ?_⟩
  obtain ⟨fs, hfs, -⟩ :=
    LoadedDocument.exists_findings_of_mem_walks henvelope hd (fun _ hrule => hrule) hw
  exact ⟨fs, hfs⟩

theorem families_are_linted_alike_sample :
    (∀ r ∈ (Raw.dict sampleSchemas).references .schemaMap,
      ∃ rest, r = .str ("#/components/schemas/" ++ rest))
    ∧ (∃ d d', LoadedDocument.ofRaw sampleDocument = .ok d
      ∧ LoadedDocument.ofRaw (swaggerDocument (asDefinitions sampleSchemas)) = .ok d'
      ∧ d'.graph = d.graph ∧ d'.aliases = d.aliases
      ∧ List.Forall₂ (fun w w' =>
            FoundAlike (Pointer.Rebased "#/components/schemas" "#/definitions") w.findings
              w'.findings)
          (d.walks RuleSet.builtin) (d'.walks RuleSet.builtin))
    ∧ (lintDocument RuleSet.builtin [] (swaggerDocument (asDefinitions sampleSchemas))
        default).result.errors.map LintEntry.pointer
      = ["Tag/example", "Pet/oneOf", "Pet/oneOf", "Pet/oneOf", "Pet/oneOf",
          "Pet/default/a~1b/1", "Pet/oneOf/enum/1"].map fun place =>
        some ("#/definitions/" ++ place) := by
  have hreferences : ∀ r ∈ (Raw.dict sampleSchemas).references .schemaMap,
      ∃ rest, r = .str ("#/components/schemas/" ++ rest) := by
    have heq : (Raw.dict sampleSchemas).references .schemaMap
        = ["Tag", "Label", "Pet"].map fun name => .str ("#/components/schemas/" ++ name) := by rfl
    rw [heq]
    intro r hr
    obtain ⟨name, _, rfl⟩ := List.mem_map.mp hr
    exact ⟨name, rfl⟩
  obtain ⟨-, hloads, hsame⟩ := families_are_linted_alike hreferences
  obtain ⟨d, hd⟩ := ofRaw_sample
  obtain ⟨d', hd'⟩ := hloads.mp ⟨d, hd⟩
  obtain ⟨-, hgraph, haliases, hwalks, -⟩ := hsame d d' hd hd'
  exact ⟨hreferences, ⟨d, d', hd, hd', hgraph, haliases, hwalks⟩, by decide +kernel⟩

end Lint

end ApiLint
