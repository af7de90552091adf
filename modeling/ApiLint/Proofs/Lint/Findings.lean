import ApiLint.Proofs.Document.Grammar
import ApiLint.Proofs.Lint.Walks
import ApiLint.Proofs.Rule.Selection

/-!
# What a linter finds in a document

The findings of a linter with the rules of the library, said on the raw document: for every
component that is no alias, in order of declaration, and every schema in line of it, in the order of
a walk, the findings about that raw schema.
-/

namespace ApiLint

namespace Components

/-- The findings about the schemas in line of a raw schema, given the pointer to it. -/
def inlineFindings (cs : Components) (es : Entries) (base : Pointer) : List Finding :=
  es.inlineSchemas.flatMap fun s => cs.schemaFindings s.entries (base.join s.segments)

/-- The findings for each component that is no alias. -/
def componentFindings (cs : Components) : List (List Finding) :=
  cs.entries.filterMap fun e =>
    e.2.inline?.map fun es => cs.inlineFindings es (cs.pointerTo e.1.text)

variable {cs : Components} {d : LoadedDocument}

lemma inline?_eq_none_of_reference? {raw : Raw} (h : (reference? raw).isSome) :
    raw.inline? = none := by
  cases raw with
  | dict es =>
    rw [reference?] at h
    rw [Raw.inline?, if_pos h]
  | _ => rfl

/-- A component that is no alias renders its body. -/
lemma exists_inline_of_rendersComponent {g : Graph} {lo hi place : Nat} {e : Raw × Raw}
    (hplain : reference? e.2 = none) (h : cs.RendersComponent g lo hi e place) :
    ∃ es node, e.2 = .dict es ∧ e.2.inline? = some es ∧ g.nodes[place]? = some node
      ∧ node.reference = some e.1.text ∧ cs.Renders g lo hi es node := by
  obtain ⟨target, es, node, htarget, hnode, hreference, hrenders⟩ := h
  have hbody : e.2 = .dict es := (shape_eq_of_reference?_eq_none hplain htarget).symm
  exact ⟨es, node, hbody, Raw.inline?_eq_some_iff.mpr ⟨hbody, hrenders.plain⟩, hnode, hreference,
    hrenders⟩

/-- The walk of a component that is no alias finds what there is to find about it. -/
lemma findings_walk_of_places (hcs : cs.RenderedBy d.graph) (hnames : "" ∉ cs.names) {lo hi : Nat}
    {e : Raw × Raw} (he : e ∈ cs.entries) {c : (String × Component) × Nat}
    (h : cs.Places d lo hi e c) (hplain : reference? e.2 = none) :
    ∃ es, e.2.inline? = some es
      ∧ ((Walker.mk RuleSet.builtin c.1.2.pointer true).walk d.graph (.node c.2)).findings
        = .ok (cs.inlineFindings es (cs.pointerTo e.1.text)) := by
  obtain ⟨es, node, _, hinline, hnode, hreference, hrenders⟩ :=
    exists_inline_of_rendersComponent hplain h.renders
  refine ⟨es, hinline, ?_⟩
  rw [h.pointer]
  exact hcs.findings_walk hnames (List.mem_map_of_mem he) hnode hreference hrenders _

end Components

namespace LoadedDocument

variable {document : Raw} {d : LoadedDocument} {cs : Components}

/-- The walks of a linter with the rules of the library come to the findings for the components that
are no aliases. -/
lemma findings_walks (hdocument : document.isTextKeyed = true)
    (hcs : Components.ofDocument document = .ok cs) (h : ofRaw document = .ok d)
    (hnames : "" ∉ cs.names) :
    (d.walks RuleSet.builtin).map Walk.Outcome.findings = cs.componentFindings.map .ok := by
  have hrendered := renderedBy_graph hdocument hcs h
  have hchain := chain_components hdocument hcs h
  rw [walks, walksFrom, Components.componentFindings, List.map_filterMap, List.map_filterMap]
  refine (filterMap_eq_of_forall₂ ?_).symm
  have hentries := ((List.forall₂_and_left _ _).mpr ⟨fun _ he => he, hchain.forall₂⟩)
  refine hentries.imp ?_
  rintro e ⟨⟨name, component⟩, place⟩ ⟨he, lo, hi, hplaces⟩
  dsimp only
  cases hplain : Components.reference? e.2 with
  | some reference =>
    have hsome : (Components.reference? e.2).isSome := by rw [hplain]; rfl
    rw [if_pos (hplaces.isAlias.mpr hsome), Components.inline?_eq_none_of_reference? hsome]
    rfl
  | none =>
    have hnot : ¬(Fields.find? d.aliases name).isSome := by
      intro hsome
      have := hplaces.isAlias.mp hsome
      simp [hplain] at this
    obtain ⟨es, hinline, hfindings⟩ :=
      Components.findings_walk_of_places hrendered hnames he hplaces hplain
    rw [if_neg hnot, hinline, Option.map_some, Option.map_some, Option.map_some, hfindings]

end LoadedDocument

namespace Lint

variable {document : Raw} {d : LoadedDocument} {cs : Components}

/-- Linting a loaded document with the rules of the library adds entries for the findings. -/
theorem lintLoaded_builtin (hdocument : document.isTextKeyed = true)
    (hcs : Components.ofDocument document = .ok cs) (h : LoadedDocument.ofRaw document = .ok d)
    (hnames : "" ∉ cs.names) (places : SourceMap) (result : LintResult) :
    (lintLoaded RuleSet.builtin places d result).fault = none
      ∧ (lintLoaded RuleSet.builtin places d result).result.errors
        = result.errors ++ cs.componentFindings.flatten.map (findingEntry result.file places) :=
  lintLoaded_of_findings (d.findings_walks hdocument hcs h hnames) result

/-! ### A small document -/

/-- The schemas of a document: an alias, a component that refers to itself in a composition with a
discriminator, and literals that depart from their schemas. -/
def sampleSchemas : Entries :=
  [(.str "Tag", .ofFields [("type", .str "string"), ("example", .int 7)]),
    (.str "Label", .ofFields [("$ref", .str "#/components/schemas/Tag")]),
    (.str "Pet", .ofFields [
      ("type", .str "object"),
      ("properties", .ofFields [
        ("a/b", .ofFields [
          ("type", .str "array"),
          ("items", .ofFields [("$ref", .str "#/components/schemas/Label")])])]),
      ("default", .ofFields [("a/b", .list [.str "x", .int 1])]),
      ("discriminator", .str "kind"),
      ("oneOf", .list [
        .ofFields [("$ref", .str "#/components/schemas/Pet")],
        .ofFields [("type", .str "boolean"), ("enum", .list [.bool true, .null])]])])]

def sampleDocument : Raw :=
  .ofFields [("openapi", .str "3.0.0"),
    ("components", .ofFields [("schemas", .dict sampleSchemas)])]

def sampleComponents : Components := ⟨⟨.openapi, 3, 0, 0⟩, sampleSchemas⟩

lemma ofDocument_sample : Components.ofDocument sampleDocument = .ok sampleComponents := by rfl

lemma issues_sample : Envelope.issues sampleDocument = .ok [] :=
  Envelope.issues_eq_ok_nil_iff_documentIssues.mpr (by decide +kernel)

lemma ofRaw_sample : ∃ d, LoadedDocument.ofRaw sampleDocument = .ok d :=
  exists_ok_of_isSome (by decide +kernel)

end Lint

end ApiLint
