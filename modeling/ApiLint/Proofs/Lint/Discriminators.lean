import ApiLint.Proofs.Lint.Components
import ApiLint.Proofs.Lint.Stops
import ApiLint.Proofs.Rule.Discriminators
import Mathlib.Algebra.GroupWithZero.Nat

/-!
# Discriminator findings agree with the document

For every component that is no alias and every schema in line of it, the rules of discriminators
report in the walk of a linter what there is to report about the raw schema, and so the number of
these findings is the number of members that do not declare or do not require the property.
-/

namespace ApiLint

open Walk

namespace LoadedDocument

/-- What the rules of the library find at the end of a path from a component. -/
def foundAt (d : LoadedDocument) (base : Pointer) (name : String) (path : List Nat) :
    List Finding :=
  (arrival? d.graph base (.node (d.placeOf name)) path).toList.flatMap
    (findingsAt RuleSet.builtin (Examination.ofBuiltin d.graph))

variable {document : Raw} {d : LoadedDocument} {cs : Components} {name : String} {es : Entries}

/-- A walk meets every schema in line of a component, and finds there what there is to find about
it. -/
lemma exists_renders_of_mem_inlineSchemas (hdocument : document.isTextKeyed = true)
    (hcs : Components.ofDocument document = .ok cs) (h : ofRaw document = .ok d)
    (hnames : "" ∉ cs.names) (hbody : Entries.field? cs.entries name = some (.dict es))
    (hplain : es.field? "$ref" = none) {s : InlineSchema} (hs : s ∈ es.inlineSchemas) :
    ∃ node lo hi, cs.Renders d.graph lo hi s.entries node
      ∧ d.foundAt (cs.pointerTo name) name s.path
        = cs.schemaFindings s.entries ((cs.pointerTo name).join s.segments) := by
  have hrendered := renderedBy_graph hdocument hcs h
  have he := Entries.mem_of_field? hbody
  obtain ⟨c, hc, lo, hi, hplaces⟩ :=
    exists_of_forall₂_of_mem_left (chain_components hdocument hcs h).forall₂ he
  obtain ⟨target, shape, htarget, _, hmeets, _⟩ := toursFrom hrendered hnames he hplaces
  have hshape : Raw.dict shape = .dict es :=
    Components.shape_eq_of_reference?_eq_none hplain htarget
  cases hshape
  obtain ⟨visit, hvisit, hmeet⟩ := exists_of_forall₂_of_mem_left hmeets hs
  obtain ⟨lo', hi', hrenders⟩ := hmeet.renders
  have hname : c.1.1 = name := hplaces.name
  have hpointer : c.1.2.pointer = cs.pointerTo name := hplaces.pointer
  have harrival : arrival? d.graph (cs.pointerTo name) (.node (d.placeOf name)) s.path
      = some visit.2 := by
    rw [← hname, placeOf_eq (nodup_names_of_ofRaw hdocument hcs h) hc, ← hmeet.path]
    rw [hname, ← hpointer]
    exact arrival?_of_mem_pathsFrom hvisit
  refine ⟨visit.2.node, lo', hi', hrenders, ?_⟩
  rw [foundAt, harrival, Option.toList_some, List.flatMap_cons, List.flatMap_nil, List.append_nil,
    Components.findingsAt_eq hrendered hnames hmeet.node hrenders, hmeet.pointer, hpointer]

/-- Every member of a composition in a component stands for a raw schema, of which the envelope asks
nothing more. -/
lemma resolves_shapeOf (hdocument : document.isTextKeyed = true)
    (hcs : Components.ofDocument document = .ok cs) (h : ofRaw document = .ok d)
    (henvelope : Envelope.issues document = .ok []) {node : Node} {lo hi : Nat}
    (hrenders : cs.Renders d.graph lo hi es node) (hes : Envelope.IsAdmitted (.dict es))
    {kind : CompositionKind} {raw : Raw} (hraw : raw ∈ es.listAt kind.keyword) :
    cs.Resolves raw (cs.shapeOf raw) ∧ Envelope.IsAdmitted (.dict (cs.shapeOf raw)) := by
  have hshape : ∀ shape, cs.Resolves raw shape → Envelope.IsAdmitted (.dict shape) →
      cs.Resolves raw (cs.shapeOf raw) ∧ Envelope.IsAdmitted (.dict (cs.shapeOf raw)) := by
    intro shape hresolves hadmitted
    rw [hresolves.shapeOf_eq]
    exact ⟨hresolves, hadmitted⟩
  have hmember := (SchemaNode.similar_iff.mp hrenders.similar).2.2.2 kind
  rw [Entries.composition_outline] at hmember
  obtain ⟨child, _, lo', hi', hstands⟩ := exists_of_forall₂_of_mem_left hmember hraw
  obtain ⟨members, rfl⟩ := Components.exists_dict_of_stands hstands
  -- In line a member is its own shape; a reference has the shape at the end of its chain.
  cases hreference : Entries.field? members "$ref" with
  | none =>
    refine hshape members (.inline (Raw.inline?_eq_some_iff.mpr ⟨rfl, hreference⟩)) ?_
    obtain ⟨raws, hraws, hall⟩ :=
      Envelope.exists_list_of_composition hes (Entries.field?_of_mem_listAt hraw)
    cases hraws
    exact hall _ hraw
  | some reference =>
    obtain ⟨_, text, name, rfl, hname, hmem, _⟩ :=
      Components.stands_reference hreference hstands
    obtain ⟨target, shape, hends, _⟩ := exists_shape hdocument hcs h hmem
    have hreferred : cs.referredName? (.dict members) = some name := by
      rw [← hname]
      exact Components.referredName?_of_reference? (show Components.reference? _ = _ from hreference)
    refine hshape shape (.reference hreferred hends) ?_
    obtain ⟨_, hends⟩ := hends
    exact Envelope.isAdmitted_of_mem_components henvelope hcs
      (Entries.mem_of_field? hends.target_found.1)

/-- What is found at a schema in line of a component, by what it is about. -/
lemma foundAt_eq_reports (hdocument : document.isTextKeyed = true)
    (hcs : Components.ofDocument document = .ok cs) (h : ofRaw document = .ok d)
    (hnames : "" ∉ cs.names) (henvelope : Envelope.issues document = .ok [])
    (hbody : Entries.field? cs.entries name = some (.dict es)) (hplain : es.field? "$ref" = none)
    {s : InlineSchema} (hs : s ∈ es.inlineSchemas) :
    (∀ kind : CompositionKind, ∀ raw ∈ s.entries.listAt kind.keyword,
        cs.Resolves raw (cs.shapeOf raw))
      ∧ d.foundAt (cs.pointerTo name) name s.path
        = cs.compositionReport .oneOf s.entries ((cs.pointerTo name).join s.segments)
          ++ cs.compositionReport .anyOf s.entries ((cs.pointerTo name).join s.segments)
          ++ cs.literalFindings s.entries ((cs.pointerTo name).join s.segments) := by
  obtain ⟨node, lo, hi, hrenders, hfound⟩ :=
    exists_renders_of_mem_inlineSchemas hdocument hcs h hnames hbody hplain hs
  have hes : Envelope.IsAdmitted (.dict s.entries) :=
    Envelope.isAdmitted_of_mem_inlineSchemas
      (Envelope.isAdmitted_of_mem_components henvelope hcs (Entries.mem_of_field? hbody)) hs
  have hmembers : ∀ kind : CompositionKind, ∀ raw ∈ s.entries.listAt kind.keyword, _ :=
    fun kind raw hraw => resolves_shapeOf hdocument hcs h henvelope hrenders hes hraw
  refine ⟨fun kind raw hraw => (hmembers kind raw hraw).1, ?_⟩
  rw [hfound]
  exact Components.schemaFindings_eq_reports hes hrenders.keyed
    (fun kind raw hraw => (hmembers kind raw hraw).2) _

end LoadedDocument

namespace Lint

/-- In a text-keyed document whose envelope has no issues, whose components have names that are not
empty, and whose schemas can be built, every member of a composition stands for one raw schema, and
the walk of a component that is no alias comes to what the rules of the library find at the schemas
in line of it, in order. What the rule of a composition finds at one of these is what there is to
report about the raw schema, with the pointer under which the walk meets it. Findings about
discriminated compositions are as many as members that do not declare or do not require the
property. -/
theorem discriminator_findings_of_document {document : Raw} {cs : Components} {d : LoadedDocument}
    (hdocument : document.isTextKeyed = true) (hcs : Components.ofDocument document = .ok cs)
    (hnames : "" ∉ cs.names) (henvelope : Envelope.issues document = .ok [])
    (hload : LoadedDocument.ofRaw document = .ok d) :
    ∀ name ∈ cs.names, Fields.find? d.aliases name = none →
      ∃ es : Entries, Entries.field? cs.entries name = some (.dict es)
      ∧ (∀ s ∈ es.inlineSchemas, ∀ kind : CompositionKind, ∀ raw ∈ s.entries.listAt kind.keyword,
          cs.Resolves raw (cs.shapeOf raw))
      ∧ ∃ w ∈ d.walks RuleSet.builtin, d.walkOf RuleSet.builtin name = some w
        ∧ ∃ findings, w.findings = .ok findings
          ∧ findings = (es.inlineSchemas.flatMap fun s =>
              d.foundAt (cs.pointerTo name) name s.path)
          ∧ (∀ s ∈ es.inlineSchemas, ∀ kind : CompositionKind,
              (d.foundAt (cs.pointerTo name) name s.path).filter (·.isAbout kind)
                = cs.compositionReport kind s.entries ((cs.pointerTo name).join s.segments))
          ∧ findings.countP Finding.isDiscrimination
            = (es.inlineSchemas.map fun s =>
                (CompositionKind.all.map fun kind => cs.lapses kind s.entries).sum).sum := by
  intro name hname halias
  obtain ⟨es, hbody, hplain⟩ :=
    (LoadedDocument.find?_aliases_eq_none_iff hdocument hcs hload hname).mp halias
  obtain ⟨w, hw, hwalk, hfindings⟩ :=
    LoadedDocument.exists_walkOf hdocument hcs hload hnames hbody hplain
  have hfound : cs.inlineFindings es (cs.pointerTo name)
      = es.inlineSchemas.flatMap fun s => d.foundAt (cs.pointerTo name) name s.path := by
    refine List.flatMap_congr fun s hs => ?_
    obtain ⟨_, _, _, _, hfound⟩ := LoadedDocument.exists_renders_of_mem_inlineSchemas hdocument hcs
      hload hnames hbody hplain hs
    exact hfound.symm
  rw [hfound] at hfindings
  have hreports := fun s (hs : s ∈ es.inlineSchemas) =>
    LoadedDocument.foundAt_eq_reports hdocument hcs hload hnames henvelope hbody hplain hs
  refine ⟨es, hbody, fun s hs => (hreports s hs).1, w, hw, hwalk, _, hfindings, rfl, ?_, ?_⟩
  · intro s hs kind
    rw [(hreports s hs).2, List.filter_append, List.filter_append,
      Components.filter_compositionReport, Components.filter_compositionReport,
      Components.filter_literalFindings_isAbout, List.append_nil]
    cases kind with
    | oneOf => simp
    | anyOf => simp
    | allOf => simp [Components.compositionReport, Discrimination.ruleName?]
  · rw [List.countP_flatMap]
    refine congrArg List.sum (List.map_congr_left fun s hs => ?_)
    have hnone : cs.lapses .allOf s.entries = 0 := rfl
    rw [Function.comp_apply, (hreports s hs).2, List.countP_append, List.countP_append,
      Components.countP_compositionReport, Components.countP_compositionReport,
      Components.countP_literalFindings]
    simp [CompositionKind.all, hnone]

/-- A component with a discriminator, whose members are an alias of a schema that declares and
requires the property, a schema in line that only declares it, and the component itself. -/
def discriminatedSchemas : Entries :=
  [(.str "Feline", .ofFields [("$ref", .str "#/components/schemas/Cat")]),
    (.str "Pet", .ofFields [
      ("discriminator", .ofFields [("propertyName", .str "kind")]),
      ("oneOf", .list [
        .ofFields [("$ref", .str "#/components/schemas/Feline")],
        .ofFields [("properties", .ofFields [("kind", .ofFields [("type", .str "string")])])],
        .ofFields [("$ref", .str "#/components/schemas/Pet")]])]),
    (.str "Cat", .ofFields [
      ("properties", .ofFields [("kind", .ofFields [("type", .str "string")])]),
      ("required", .list [.str "kind"])])]

def discriminatedDocument : Raw :=
  .ofFields [("openapi", .str "3.0.0"),
    ("components", .ofFields [("schemas", .dict discriminatedSchemas)])]

def discriminatedComponents : Components := ⟨⟨.openapi, 3, 0, 0⟩, discriminatedSchemas⟩

theorem discriminator_findings_of_document_discriminated :
    ∃ d, LoadedDocument.ofRaw discriminatedDocument = .ok d
      ∧ (d.foundAt "#/components/schemas/Pet" "Pet" []).filter (·.isAbout .oneOf)
        = [⟨"ValidateOneOfDiscriminator", "#/components/schemas/Pet/oneOf",
              Discrimination.notRequiredMessage "<inline #1>" "kind", .discriminatorNotRequired⟩,
            ⟨"ValidateOneOfDiscriminator", "#/components/schemas/Pet/oneOf",
              Discrimination.missingMessage "Pet" "kind", .discriminatorPropertyMissing⟩,
            ⟨"ValidateOneOfDiscriminator", "#/components/schemas/Pet/oneOf",
              Discrimination.notRequiredMessage "Pet" "kind", .discriminatorNotRequired⟩]
      ∧ ∃ w ∈ d.walks RuleSet.builtin, ∃ findings, w.findings = .ok findings
        ∧ findings.countP Finding.isDiscrimination = 3 := by
  obtain ⟨d, hload⟩ : ∃ d, LoadedDocument.ofRaw discriminatedDocument = .ok d :=
    exists_ok_of_isSome (by decide +kernel)
  have hkeyed : discriminatedDocument.isTextKeyed = true := by decide
  have hcs : Components.ofDocument discriminatedDocument = .ok discriminatedComponents := by rfl
  have hissues : Envelope.issues discriminatedDocument = .ok [] :=
    Envelope.issues_eq_ok_nil_iff_documentIssues.mpr (by decide +kernel)
  have halias : Fields.find? d.aliases "Pet" = none := by
    rw [LoadedDocument.aliases_eq hkeyed hcs hload]
    decide +kernel
  obtain ⟨es, hbody, _, w, hw, _, findings, hfindings, _, hfound, hcount⟩ :=
    discriminator_findings_of_document hkeyed hcs (by decide) hissues hload "Pet" (by decide) halias
  cases hbody
  refine ⟨d, hload, ?_, w, hw, findings, hfindings, ?_⟩
  · refine (hfound ⟨[], [], _⟩ (by rw [Entries.inlineSchemas_eq]; exact List.mem_cons_self ..)
      .oneOf).trans ?_
    decide +kernel
  · rw [hcount]
    decide +kernel

end Lint

end ApiLint
