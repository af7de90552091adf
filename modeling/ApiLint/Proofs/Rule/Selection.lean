import ApiLint.Proofs.Rule.Builtin

/-!
# Walks with rules of the library

What some of the rules of the library find, in whatever order they run, can be said on the raw
schema that a node renders; and so can what all of them find. So walks from two nodes that render
the same raw schema find the same, below any pointer, if they stop at references.
-/

namespace ApiLint

open Walk

lemma Pointer.join_orRoot (base : Pointer) (segments : List String) :
    base.orRoot.join segments = base.join segments :=
  join_join base [] segments

lemma Pointer.isEmpty_orRoot (base : Pointer) : base.orRoot.isEmpty = false := isEmpty_join base []

variable {cs : Components} {g : Graph} {rules : RuleSet}

/-! ### Pointers without text -/

/-- The rules of the library extend every pointer, and so a pointer without text is as good as the
root. -/
lemma Walk.findingsAt_orRoot (rules : RuleSet) (base : Pointer) (place : Nat) (node : Node) :
    findingsAt rules (Examination.ofBuiltin g) ⟨base.orRoot, place, node⟩
      = findingsAt rules (Examination.ofBuiltin g) ⟨base, place, node⟩ := by
  have hcomposition : ∀ kind, Discrimination.findings g node kind base.orRoot
      = Discrimination.findings g node kind base := by
    intro kind
    simp only [Discrimination.findings, Pointer.join_orRoot]
  have hschema : ∀ rule, (Examination.ofBuiltin g rule).onSchema base.orRoot place node
      = (Examination.ofBuiltin g rule).onSchema base place node := by
    intro rule
    rw [Examination.ofBuiltin]
    split
    · rfl
    · split
      · simp only [Examination.ofComposition, hcomposition]
      · simp only [Examination.ofComposition, hcomposition]
  simp only [findingsAt, hschema, Pointer.join_orRoot]

/-- A walk below a pointer without text finds what a walk below the root finds. -/
lemma Walk.findings_walk_orRoot (hg : g.IsSound) (hrules : ∀ rule ∈ rules.rules, rule ∈ Rule.builtin)
    {place : Nat} {node : Node} (hnode : g.nodes[place]? = some node)
    (hnamed : g.NamesRepeats [] (.node place)) (base : Pointer) (stopAtReferences : Bool) :
    ((Walker.mk rules base stopAtReferences).walk g (.node place)).findings
      = ((Walker.mk rules base.orRoot stopAtReferences).walk g (.node place)).findings := by
  have hreports : ∀ rule ∈ rules.rules, rule.Reports g (Examination.ofBuiltin g rule) :=
    fun rule hrule => hg.builtin_reports rule (hrules rule hrule)
  let walker : Walker := ⟨rules, base, stopAtReferences⟩
  have hwalk : ∀ pointer : Pointer, ({ walker with base := pointer }.walk g (.node place)).findings
      = .ok (findingsAt rules (Examination.ofBuiltin g) ⟨pointer, place, node⟩
        ++ node.children.flatMap fun e => findingsAlong rules (Examination.ofBuiltin g)
          (listing walker g g.nodes.size [Graph.keyOf place node] (pointer.join e.1.segments)
            e.2)) := by
    intro pointer
    have hat : Stop.at? g pointer (.node place) = some ⟨pointer, place, node⟩ :=
      Stop.at?_of_resolve (Graph.resolve_node hnode)
    have hlisting : listing { walker with base := pointer } g (depthBound g) [] pointer (.node place)
        = listing walker g (g.nodes.size + 1) [] pointer (.node place) := by
      apply listing_congr
      rfl
    have hcons : findingsAlong walker.rules (Examination.ofBuiltin g)
        (listing walker g (g.nodes.size + 1) [] pointer (.node place)) = _ :=
      findingsAlong_listing_cons hat (List.not_mem_nil) (by simp [isCut])
    rw [Walk.findings_walk hg.isWellFormed hreports ⟨_, Graph.resolve_node hnode⟩ hnamed, hlisting]
    exact congrArg Except.ok hcons
  refine (hwalk base).trans (Eq.trans ?_ (hwalk base.orRoot).symm)
  simp only [findingsAt_orRoot, Pointer.join_orRoot]

namespace Components

/-! ### Raw schemas -/

/-- What a rule of the library finds about a raw schema, literals aside. -/
def schemaFindingsOf (cs : Components) (rule : Rule) (es : Entries) (pointer : Pointer) :
    List Finding :=
  if rule.name = Matching.ruleName then []
  else if rule.name = Discrimination.oneOfRuleName then cs.compositionFindings es .oneOf pointer
  else cs.compositionFindings es .anyOf pointer

/-- What a rule of the library finds about a literal of a raw schema. -/
def literalFindingsOf (cs : Components) (rule : Rule) (es : Entries) (pointer : Pointer)
    (literal : Raw) : List Finding :=
  if rule.name = Matching.ruleName then mismatchesAt pointer (cs.departures (.dict es) literal)
  else []

/-- What rules of the library find about a raw schema, in the order in which a walk reports it. -/
def findingsOf (cs : Components) (rules : RuleSet) (es : Entries) (pointer : Pointer) :
    List Finding :=
  ((rules.rulesFor .schema).flatMap fun rule => cs.schemaFindingsOf rule es pointer)
    ++ es.rawLiterals.flatMap fun l => (rules.rulesFor .literal).flatMap fun rule =>
      cs.literalFindingsOf rule es (pointer.join l.1) l.2

/-! ### Walks -/

variable {es : Entries} {lo hi : Nat}

/-- At a stop, rules of the library find what they find about the raw schema that stands there. -/
lemma findingsAt_eq_findingsOf (hcs : cs.RenderedBy g) (hnames : "" ∉ cs.names) {stop : Stop}
    (hnode : g.nodes[stop.place]? = some stop.node) (hrenders : cs.Renders g lo hi es stop.node) :
    findingsAt rules (Examination.ofBuiltin g) stop = cs.findingsOf rules es stop.pointer := by
  have hschema : ∀ rule,
      (Examination.ofBuiltin g rule).onSchema stop.pointer stop.place stop.node
        = cs.schemaFindingsOf rule es stop.pointer := by
    intro rule
    rw [Examination.ofBuiltin, schemaFindingsOf]
    split
    · rfl
    · split
      · simp only [Examination.ofComposition, Except.toOption, Option.getD_some,
          compositionFindings_eq hcs hnames hrenders (show CompositionKind.oneOf ≠ .allOf by simp)]
      · simp only [Examination.ofComposition, Except.toOption, Option.getD_some,
          compositionFindings_eq hcs hnames hrenders (show CompositionKind.anyOf ≠ .allOf by simp)]
  have hliteral : ∀ rule raw value pointer, raw.isTextKeyed = true → cs.literal es raw = .ok value →
      cs.literalFindingsOf rule es pointer raw
        = (Examination.ofBuiltin g rule).onLiteral pointer stop.place stop.node value := by
    intro rule raw value pointer hraw hvalue
    rw [Examination.ofBuiltin, literalFindingsOf]
    split
    · simp only [Examination.ofMatching, Except.toOption, Option.getD_some,
        mismatches_eq hcs hnode hrenders hraw hvalue]
    · split <;> rfl
  rw [findingsAt, findingsOf]
  simp only [hschema]
  congr 1
  have hliterals := (List.forall₂_and_left _ _).mpr
    ⟨fun l hl => Entries.isTextKeyed_of_mem_rawLiterals hrenders.keyed hl,
      hrenders.declares.literals⟩
  refine (flatMap_eq_of_forall₂ (hliterals.imp ?_)).symm
  rintro ⟨segments, raw⟩ ⟨_, value⟩ ⟨hraw, rfl, hvalue⟩
  exact List.flatMap_congr fun rule _ => hliteral rule raw value _ hraw hvalue

/-- A walk from the node of a component that stops at references finds what rules of the library
find about the schemas in line of the shape of the component, in order. -/
lemma RenderedBy.findings_walk_eq_findingsOf (hcs : cs.RenderedBy g) (hnames : "" ∉ cs.names)
    (hrules : ∀ rule ∈ rules.rules, rule ∈ Rule.builtin) {place : Nat} {node : Node} {name : String}
    (hname : name ∈ cs.names) (hnode : g.nodes[place]? = some node)
    (hreference : node.reference = some name) (hrenders : cs.Renders g lo hi es node)
    (base : Pointer) :
    ((Walker.mk rules base true).walk g (.node place)).findings
      = .ok (es.inlineSchemas.flatMap fun s =>
        cs.findingsOf rules s.entries (base.join s.segments)) := by
  have hsound := hcs.isSound hnames
  have hreports : ∀ rule ∈ rules.rules, rule.Reports g (Examination.ofBuiltin g rule) :=
    fun rule hrule => hsound.builtin_reports rule (hrules rule hrule)
  have hplace : place < cs.entries.length := by
    obtain ⟨owner, htiered⟩ := hcs.tiered
    exact not_le.mp fun hle => by simp [(htiered.reference hnode).mpr hle] at hreference
  have hnamed := hcs.namesRepeats hnames hplace
  rw [findings_walk_orRoot hsound hrules hnode hnamed,
    Walk.findings_walk hsound.isWellFormed hreports ⟨_, Graph.resolve_node hnode⟩ hnamed]
  obtain ⟨hmeets, _⟩ : List.Forall₂ (cs.Meets g base.orRoot) es.inlineSchemas
      (listing ⟨rules, base.orRoot, true⟩ g (depthBound g) [] base.orRoot (.node place)) ∧ _ :=
    tours_component hcs hnames rfl base.isEmpty_orRoot hnode hreference hname hrenders
      (card_keys_lt_depthBound g)
  refine congrArg Except.ok (flatMap_eq_of_forall₂ (hmeets.imp ?_)).symm
  intro s e hmeet
  obtain ⟨lo', hi', hrenders'⟩ := hmeet.renders
  rw [findingsAt_eq_findingsOf hcs hnames hmeet.node hrenders', hmeet.pointer, Pointer.join_orRoot]

/-! ### All rules -/

lemma findingsOf_builtin (es : Entries) (pointer : Pointer) :
    cs.findingsOf RuleSet.builtin es pointer = cs.schemaFindings es pointer := by
  change cs.compositionFindings es .oneOf pointer ++ (cs.compositionFindings es .anyOf pointer ++ [])
    ++ es.rawLiterals.flatMap (fun l =>
      mismatchesAt (pointer.join l.1) (cs.departures (.dict es) l.2) ++ []) = _
  simp only [List.append_nil]
  rfl

lemma findingsAt_eq (hcs : cs.RenderedBy g) (hnames : "" ∉ cs.names) {stop : Stop}
    (hnode : g.nodes[stop.place]? = some stop.node) (hrenders : cs.Renders g lo hi es stop.node) :
    findingsAt RuleSet.builtin (Examination.ofBuiltin g) stop
      = cs.schemaFindings es stop.pointer := by
  rw [findingsAt_eq_findingsOf hcs hnames hnode hrenders, findingsOf_builtin]

/-- With all rules, what there is to find about the schemas in line is found. -/
theorem RenderedBy.findings_walk (hcs : cs.RenderedBy g) (hnames : "" ∉ cs.names) {place : Nat}
    {node : Node} {name : String} (hname : name ∈ cs.names) (hnode : g.nodes[place]? = some node)
    (hreference : node.reference = some name) (hrenders : cs.Renders g lo hi es node)
    (base : Pointer) :
    ((Walker.mk RuleSet.builtin base true).walk g (.node place)).findings
      = .ok (es.inlineSchemas.flatMap fun s =>
        cs.schemaFindings s.entries (base.join s.segments)) := by
  have hwalk : ((Walker.mk RuleSet.builtin base true).walk g (.node place)).findings
      = .ok (es.inlineSchemas.flatMap fun s =>
        cs.findingsOf RuleSet.builtin s.entries (base.join s.segments)) :=
    hcs.findings_walk_eq_findingsOf hnames (fun _ hrule => hrule) hname hnode hreference hrenders
      base
  simpa only [findingsOf_builtin] using hwalk

end Components

end ApiLint
