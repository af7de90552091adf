import ApiLint.Proofs.Document.WellFormed
import ApiLint.Proofs.Matching.Departures
import ApiLint.Proofs.Rule.Total

/-!
# What the rules of the library find in a document

On a graph that renders a document, the rules of the library never fail, and what they find at a
node can be said on the raw schema that the node renders: the members of its discriminated
compositions that do not carry the property, and the departures of its literals.
-/

namespace ApiLint

namespace Components

/-! ### Raw schemas -/

/-- The findings about one member of a composition of a raw schema. A reference to a component has
the properties of its shape. -/
def memberFindings (cs : Components) (rule : String) (pointer : Pointer) (property : String)
    (index : Nat) (raw : Raw) : List Finding :=
  let name := (cs.referredName? raw).getD s!"<inline #{index}>"
  let es := (cs.governing? raw).getD []
  (if ((es.mappingAt "properties").field? property).isSome then []
    else [⟨rule, pointer, Discrimination.missingMessage name property,
      .discriminatorPropertyMissing⟩])
  ++ (if property ∈ es.outline.required then []
    else [⟨rule, pointer, Discrimination.notRequiredMessage name property,
      .discriminatorNotRequired⟩])

/-- The findings about a composition of a raw schema. -/
def compositionFindings (cs : Components) (es : Entries) (kind : CompositionKind)
    (pointer : Pointer) : List Finding :=
  match Discrimination.ruleName? kind, es.outline.discriminatorProperty? with
  | some rule, some property =>
    (es.outline.composition kind).zipIdx.flatMap fun e =>
      cs.memberFindings rule (pointer.join [kind.keyword]) property e.2 e.1
  | _, _ => []

/-- The findings about the literals of a raw schema. -/
def literalFindings (cs : Components) (es : Entries) (pointer : Pointer) : List Finding :=
  es.rawLiterals.flatMap fun l => mismatchesAt (pointer.join l.1) (cs.departures (.dict es) l.2)

/-- All findings about a raw schema, in the order in which a walk reports them. -/
def schemaFindings (cs : Components) (es : Entries) (pointer : Pointer) : List Finding :=
  cs.compositionFindings es .oneOf pointer ++ cs.compositionFindings es .anyOf pointer
    ++ cs.literalFindings es pointer

variable {cs : Components} {g : Graph}

/-! ### Compositions -/

lemma eq_of_mem_memberFindings {rule : String} {pointer : Pointer} {property : String} {index : Nat}
    {raw : Raw} {f : Finding} (h : f ∈ cs.memberFindings rule pointer property index raw) :
    f.rule = rule ∧ f.pointer = pointer := by
  simp only [memberFindings, List.mem_append] at h
  rcases h with h | h
  · split at h
    · cases h
    · rw [List.mem_singleton.mp h]
      exact ⟨rfl, rfl⟩
  · split at h
    · cases h
    · rw [List.mem_singleton.mp h]
      exact ⟨rfl, rfl⟩

lemma memberFindings_eq (hcs : cs.RenderedBy g) (hnames : "" ∉ cs.names) {raw : Raw} {child : Child}
    {lo hi : Nat} (hraw : raw.isTextKeyed = true) (hstands : cs.Stands g lo hi raw child)
    (rule : String) (pointer : Pointer) (property : String) (index : Nat) :
    ∃ place node, g.resolve child = .ok (place, node)
      ∧ Discrimination.memberFindings rule pointer property index node
        = cs.memberFindings rule pointer property index raw := by
  obtain ⟨place, node, es, lo', hi', rfl, hnode, hname, hes, hrenders⟩ :=
    hcs.governing hraw hstands
  refine ⟨place, node, Graph.resolve_node hnode, ?_⟩
  have hreferred : node.name? = cs.referredName? raw := by
    cases hraw' : cs.referredName? raw with
    | none => rw [hraw'] at hname; simp [SchemaNode.name?, hname]
    | some name =>
      have hmem := mem_names_of_referredName? hstands hraw'
      exact SchemaNode.name?_of_reference (hname.trans hraw') fun heq => hnames (heq ▸ hmem)
  have hproperty : (node.property? property).isSome
      = ((es.mappingAt "properties").field? property).isSome := by
    have hfound := SchemaNode.find?_of_forall₂
      (R := fun raw child => ∃ lo hi, cs.Stands g lo hi raw child)
      (SchemaNode.similar_iff.mp hrenders.similar).1 property
    rw [find?_properties_outline hrenders.keyed] at hfound
    rw [SchemaNode.property?]
    rcases hfound with ⟨hnone, hnone'⟩ | ⟨_, _, hsome, hsome', _⟩
    · rw [hnone, hnone']
      rfl
    · rw [hsome, hsome']
      rfl
  simp only [Discrimination.memberFindings, memberFindings, Discrimination.memberName, hreferred,
    hproperty, hes, Option.getD_some, hrenders.declares.required]

lemma membersFindings_eq (hcs : cs.RenderedBy g) (hnames : "" ∉ cs.names) {raws : List Raw}
    {children : List Child} (hraws : ∀ raw ∈ raws, raw.isTextKeyed = true)
    (h : List.Forall₂ (fun raw child => ∃ lo hi, cs.Stands g lo hi raw child) raws children)
    (rule : String) (pointer : Pointer) (property : String) (index : Nat) :
    Discrimination.membersFindings g rule pointer property index children
      = .ok ((raws.zipIdx index).flatMap fun e =>
        cs.memberFindings rule pointer property e.2 e.1) := by
  induction h generalizing index with
  | nil => rfl
  | @cons raw child raws children head _ ih =>
    obtain ⟨lo, hi, hstands⟩ := head
    obtain ⟨place, node, hresolve, hfindings⟩ :=
      memberFindings_eq hcs hnames (hraws raw (List.mem_cons_self ..)) hstands rule pointer property
        index
    rw [Discrimination.membersFindings, hresolve]
    dsimp only
    rw [ih fun other hother => hraws other (List.mem_cons_of_mem _ hother), hfindings,
      List.zipIdx_cons, List.flatMap_cons]
    rfl

lemma compositionFindings_eq (hcs : cs.RenderedBy g) (hnames : "" ∉ cs.names) {lo hi : Nat}
    {es : Entries} {node : Node} (hrenders : cs.Renders g lo hi es node) {kind : CompositionKind}
    (hkind : kind ≠ .allOf) (pointer : Pointer) :
    Discrimination.findings g node kind pointer = .ok (cs.compositionFindings es kind pointer) := by
  obtain ⟨rule, hrule⟩ : ∃ rule, Discrimination.ruleName? kind = some rule := by
    cases kind with
    | oneOf => exact ⟨_, rfl⟩
    | anyOf => exact ⟨_, rfl⟩
    | allOf => exact absurd rfl hkind
  have hproperty : node.discriminatorProperty? = es.outline.discriminatorProperty? := by
    rw [SchemaNode.discriminatorProperty?, hrenders.declares.discriminator]
    rfl
  have hmembers := (SchemaNode.similar_iff.mp hrenders.similar).2.2.2 kind
  have hkeyed : ∀ raw ∈ es.outline.composition kind, raw.isTextKeyed = true := by
    intro raw hraw
    cases kind <;> exact Entries.isTextKeyed_of_mem_listAt hrenders.keyed hraw
  simp only [Discrimination.findings, compositionFindings, hrule, hproperty]
  cases es.outline.discriminatorProperty? with
  | none => rfl
  | some property => exact membersFindings_eq hcs hnames hkeyed hmembers rule _ property 0

/-! ### Rules -/

/-- The schema in line that a node renders governs the literals of the node. -/
lemma governs_self {lo hi place : Nat} {es : Entries} {node : Node}
    (hnode : g.nodes[place]? = some node) (hrenders : cs.Renders g lo hi es node) :
    cs.Governs g (.dict es) (.node place) es :=
  ⟨place, node, lo, hi, rfl, hnode, governing?_inline hrenders.plain, hrenders⟩

/-- The mismatches of a literal of a node are the departures of the raw literal. -/
lemma mismatches_eq (hcs : cs.RenderedBy g) {lo hi place : Nat} {es : Entries} {node : Node}
    (hnode : g.nodes[place]? = some node) (hrenders : cs.Renders g lo hi es node) {raw : Raw}
    {value : Literal} (hraw : raw.isTextKeyed = true) (hvalue : cs.literal es raw = .ok value)
    (pointer : Pointer) :
    Matching.mismatches g (.node place) pointer value
      = .ok (mismatchesAt pointer (cs.departures (.dict es) raw)) :=
  matchesAtDepartures hcs hraw pointer (governs_self hnode hrenders) hvalue

/-- The rules of the library only report. -/
lemma RenderedBy.builtin_reports (hcs : cs.RenderedBy g) (hnames : "" ∉ cs.names) :
    ∀ rule ∈ RuleSet.builtin.rules, rule.Reports g (Examination.ofBuiltin g rule) :=
  (hcs.isSound hnames).builtin_reports

end Components

end ApiLint
