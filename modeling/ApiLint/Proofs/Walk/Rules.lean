import ApiLint.Proofs.Walk.Paths
import ApiLint.Rule.Set

/-!
# Rules do not interfere

All rules of a walk report to one collector. If each reports under its own name, and from nothing
but the pointer, the node and the literal, then the collector holds for each name what a walk with
the rule of that name alone finds, in the same order. So the other rules of the set, and the order
of the rules, say nothing about what is found by one of them.
-/

namespace ApiLint

/-- A rule that never fails on a graph, and reports under its own name what an examination finds. -/
structure Rule.ReportsOwn (g : Graph) (rule : Rule) (found : Examination) : Prop extends
    Rule.Reports g rule found where
  schemaName : ∀ pointer place node, g.nodes[place]? = some node →
    ∀ f ∈ found.onSchema pointer place node, f.rule = rule.name
  literalName : ∀ pointer place node segments value, g.nodes[place]? = some node →
    (segments, value) ∈ node.literals →
    ∀ f ∈ found.onLiteral pointer place node value, f.rule = rule.name

/-! ### Rule sets -/

namespace RuleSet

lemma eq_of_name_eq {s : RuleSet} (hnames : s.names.Nodup) {rule other : Rule}
    (hrule : rule ∈ s.rules) (hother : other ∈ s.rules) (h : rule.name = other.name) :
    rule = other :=
  List.inj_on_of_nodup_map hnames hrule hother h

lemma nodup_rules {s : RuleSet} (hnames : s.names.Nodup) : s.rules.Nodup := hnames.of_map

lemma find?_eq_some_iff {s : RuleSet} (hnames : s.names.Nodup) {name : String} {rule : Rule} :
    s.find? name = some rule ↔ rule ∈ s.rules ∧ rule.name = name := by
  constructor
  · intro h
    exact ⟨List.mem_of_find?_eq_some h, by simpa using List.find?_some h⟩
  · rintro ⟨hrule, rfl⟩
    cases hfound : s.find? rule.name with
    | none => simpa using List.find?_eq_none.mp hfound rule hrule
    | some other =>
      have hother := List.mem_of_find?_eq_some hfound
      have hname : other.name = rule.name := by simpa using List.find?_some hfound
      rw [eq_of_name_eq hnames hother hrule hname]

/-- The named rules change their places, and no rule is lost or new. -/
lemma perm_reorder {s others : RuleSet} {names : List String} (hnames : s.names.Nodup)
    (hothers : others.names.Nodup) (h : s.reorder names = .ok others) :
    others.rules.Perm s.rules := by
  rw [reorder] at h
  split at h
  · cases h
    rw [List.perm_ext_iff_of_nodup (nodup_rules hothers) (nodup_rules hnames)]
    intro rule
    simp only [List.mem_append, List.mem_filterMap, List.mem_filter, find?_eq_some_iff hnames]
    constructor
    · rintro (⟨name, -, hrule, -⟩ | ⟨hrule, -⟩) <;> exact hrule
    · intro hrule
      by_cases hname : rule.name ∈ names
      · exact .inl ⟨rule.name, hname, hrule, rfl⟩
      · exact .inr ⟨hrule, by simpa using hname⟩
  · cases h

end RuleSet

namespace Walk

/-! ### The findings of one rule -/

/-- Of what some rules report, each under its own name, the findings under the name of one are what
it reports itself. -/
lemma filter_flatMap_rules {rules : List Rule} (hnames : (rules.map Rule.name).Nodup)
    {report : Rule → List Finding} (hown : ∀ rule ∈ rules, ∀ f ∈ report rule, f.rule = rule.name)
    {rule : Rule} (hrule : rule ∈ rules) (called : Rule → Bool) :
    ((rules.filter called).flatMap report).filter (·.rule == rule.name)
      = ([rule].filter called).flatMap report := by
  have hnone : ∀ others : List Rule, (∀ other ∈ others, other ∈ rules ∧ other.name ≠ rule.name) →
      ((others.filter called).flatMap report).filter (·.rule == rule.name) = [] := by
    intro others hothers
    simp only [List.filter_eq_nil_iff, List.mem_flatMap, List.mem_filter, beq_iff_eq]
    rintro f ⟨other, ⟨hother, -⟩, hf⟩ hname
    obtain ⟨hmem, hne⟩ := hothers other hother
    exact hne (hown other hmem f hf ▸ hname)
  have hself : ((([rule].filter called).flatMap report).filter (·.rule == rule.name))
      = ([rule].filter called).flatMap report := by
    simp only [List.filter_eq_self, List.mem_flatMap, List.mem_filter, List.mem_singleton,
      beq_iff_eq]
    rintro f ⟨_, ⟨rfl, -⟩, hf⟩
    exact hown _ hrule f hf
  -- Around the rule stand rules of other names, which report nothing under its name.
  obtain ⟨before, after, rfl⟩ := List.append_of_mem hrule
  have hsplit : ∀ other ∈ before ++ after, other.name ≠ rule.name := by
    intro other hother hname
    rw [List.map_append, List.map_cons, List.nodup_middle, ← List.map_append, List.nodup_cons]
      at hnames
    exact hnames.1 (hname ▸ List.mem_map_of_mem hother)
  rw [List.append_cons, List.filter_append, List.filter_append, List.flatMap_append,
    List.flatMap_append, List.filter_append, List.filter_append, hself, hnone before, hnone after]
  · simp
  · exact fun other hother => ⟨by simp [hother], hsplit other (by simp [hother])⟩
  · exact fun other hother => ⟨by simp [hother], hsplit other (by simp [hother])⟩

variable {g : Graph} {rules : RuleSet} {found : Rule → Examination}

/-- At a stop, the findings under the name of a rule are those of the rule alone. -/
lemma filter_findingsAt (hrules : ∀ rule ∈ rules.rules, rule.ReportsOwn g (found rule))
    (hnames : rules.names.Nodup) {rule : Rule} (hrule : rule ∈ rules.rules) {stop : Stop}
    (hstop : g.nodes[stop.place]? = some stop.node) :
    (findingsAt rules found stop).filter (·.rule == rule.name)
      = findingsAt ⟨[rule]⟩ found stop := by
  rw [findingsAt, findingsAt, List.filter_append]
  congr 1
  · apply filter_flatMap_rules hnames _ hrule
    exact fun other hother => (hrules other hother).schemaName _ _ _ hstop
  · rw [List.filter_flatMap]
    apply List.flatMap_congr
    rintro ⟨segments, value⟩ hvalue
    apply filter_flatMap_rules hnames _ hrule
    exact fun other hother => (hrules other hother).literalName _ _ _ _ _ hstop hvalue

lemma filter_findingsAlong (hrules : ∀ rule ∈ rules.rules, rule.ReportsOwn g (found rule))
    (hnames : rules.names.Nodup) {rule : Rule} (hrule : rule ∈ rules.rules)
    {paths : List (List Nat × Stop)}
    (hpaths : ∀ path ∈ paths, g.nodes[path.2.place]? = some path.2.node) :
    (findingsAlong rules found paths).filter (·.rule == rule.name)
      = findingsAlong ⟨[rule]⟩ found paths := by
  rw [findingsAlong, List.filter_flatMap]
  exact List.flatMap_congr fun path hpath =>
    filter_findingsAt hrules hnames hrule (hpaths path hpath)

/-! ### The order of the rules -/

lemma perm_findingsAt {others : RuleSet} (h : others.rules.Perm rules.rules) (stop : Stop) :
    (findingsAt others found stop).Perm (findingsAt rules found stop) := by
  apply List.Perm.append
  · exact (h.filter _).flatMap_right _
  · exact List.Perm.flatMap_left _ fun literal _ => (h.filter _).flatMap_right _

lemma perm_findingsAlong {others : RuleSet} (h : others.rules.Perm rules.rules)
    (paths : List (List Nat × Stop)) :
    (findingsAlong others found paths).Perm (findingsAlong rules found paths) :=
  List.Perm.flatMap_left _ fun path _ => perm_findingsAt h path.2

end Walk

open Walk in
/-- A walk of a well-formed graph whose nodes can be named, with rules that report under their own
distinct names, finds under each name what a walk with the rule of that name alone finds. So a rule
finds the same in every set of such rules, and a set in another order gives the same findings in
another order. -/
theorem Walker.rules_do_not_interfere {walker : Walker} {g : Graph} (hg : g.IsWellFormed)
    (hnamed : g.IsDescribed) {found : Rule → Examination}
    (hrules : ∀ rule ∈ walker.rules.rules, rule.ReportsOwn g (found rule))
    (hnames : walker.rules.names.Nodup) {root : Nat} (hroot : root < g.nodes.size) :
    ∃ findings, (walker.walk g (.node root)).findings = .ok findings
      ∧ (∀ rule ∈ walker.rules.rules,
        ({ walker with rules := ⟨[rule]⟩ }.walk g (.node root)).findings
          = .ok (Collector.byRule ⟨findings⟩ rule.name))
      ∧ ∀ others : RuleSet, others.names.Nodup →
        (∀ rule ∈ others.rules, rule.ReportsOwn g (found rule)) →
        ∃ findings', ({ walker with rules := others }.walk g (.node root)).findings = .ok findings'
          ∧ (∀ rule ∈ walker.rules.rules, rule ∈ others.rules →
            Collector.byRule ⟨findings'⟩ rule.name = Collector.byRule ⟨findings⟩ rule.name)
          ∧ (others.rules.Perm walker.rules.rules
              ∨ (∃ names, walker.rules.reorder names = .ok others) →
            findings'.Perm findings) := by
  have hresolve : ∃ result, g.resolve (.node root) = .ok result :=
    ⟨_, Graph.resolve_node (Array.getElem?_eq_getElem hroot)⟩
  let paths := listing walker g (depthBound g) [] walker.base (.node root)
  have hpaths : ∀ path ∈ paths, g.nodes[path.2.place]? = some path.2.node :=
    fun path hpath => getElem?_of_mem_listing hpath
  -- the paths are the same whatever the rules are
  have hwalk : ∀ others : RuleSet, (∀ rule ∈ others.rules, rule.ReportsOwn g (found rule)) →
      ({ walker with rules := others }.walk g (.node root)).findings
        = .ok (findingsAlong others found paths) := by
    intro others hothers
    have hpaths' : listing { walker with rules := others } g (depthBound g) [] walker.base
        (.node root) = listing walker g (depthBound g) [] walker.base (.node root) := by
      apply listing_congr
      rfl
    rw [findings_walk hg (fun rule hrule => (hothers rule hrule).toReports) hresolve
      (hnamed.namesRepeats [] _), hpaths']
  refine ⟨findingsAlong walker.rules found paths, hwalk walker.rules hrules, ?_, ?_⟩
  · intro rule hrule
    rw [hwalk ⟨[rule]⟩ (by simpa using hrules rule hrule), Collector.byRule,
      filter_findingsAlong hrules hnames hrule hpaths]
  · intro others hothersNames hothers
    refine ⟨findingsAlong others found paths, hwalk others hothers, ?_, ?_⟩
    · intro rule hrule hmem
      rw [Collector.byRule, Collector.byRule, filter_findingsAlong hothers hothersNames hmem hpaths,
        filter_findingsAlong hrules hnames hrule hpaths]
    · rintro (hperm | ⟨names, hreorder⟩)
      · exact perm_findingsAlong hperm paths
      · exact perm_findingsAlong (RuleSet.perm_reorder hnames hothersNames hreorder) paths

lemma Rule.sample_reportsOwn (g : Graph) :
    ∀ rule ∈ [Rule.naming, Rule.tagging], rule.ReportsOwn g (Examination.ofSample rule) := by
  intro rule hrule
  refine ⟨Rule.sample_reports g rule hrule, ?_, ?_⟩
  all_goals
    simp only [List.mem_cons, List.not_mem_nil, or_false] at hrule
    rcases hrule with rfl | rfl
    all_goals simp [Examination.ofSample, Rule.visitKind, RuleCheck.visitKind, Rule.naming,
      Rule.tagging]

theorem Walker.rules_do_not_interfere_entangled :
    ∃ findings,
      ((Walker.mk ⟨[.naming, .tagging]⟩ "#/s" false).walk .entangled (.node 0)).findings
        = .ok findings
      ∧ (∀ rule ∈ [Rule.naming, Rule.tagging],
        ((Walker.mk ⟨[rule]⟩ "#/s" false).walk .entangled (.node 0)).findings
          = .ok (Collector.byRule ⟨findings⟩ rule.name))
      ∧ ∃ findings',
        ((Walker.mk ⟨[.tagging, .naming]⟩ "#/s" false).walk .entangled (.node 0)).findings
          = .ok findings'
        ∧ findings'.Perm findings := by
  have hnames : (RuleSet.mk [.naming, .tagging]).names.Nodup := by decide
  have hroot : 0 < Graph.entangled.nodes.size := by decide
  obtain ⟨findings, hwalk, halone, hothers⟩ :
      ∃ findings,
        ((Walker.mk ⟨[.naming, .tagging]⟩ "#/s" false).walk .entangled (.node 0)).findings
          = .ok findings ∧ _ :=
    Walker.rules_do_not_interfere (by decide) (by decide) (Rule.sample_reportsOwn _) hnames hroot
  have hswap : [Rule.tagging, Rule.naming].Perm [Rule.naming, Rule.tagging] := .swap ..
  obtain ⟨findings', hwalk', -, hperm⟩ := hothers ⟨[.tagging, .naming]⟩ (by decide)
    fun rule hrule => Rule.sample_reportsOwn _ rule (hswap.mem_iff.mp hrule)
  exact ⟨findings, hwalk, halone, findings', hwalk', hperm (.inl hswap)⟩

end ApiLint
