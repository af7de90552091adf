import ApiLint.Proofs.Graph.Reach
import ApiLint.Proofs.Walk.Calls

/-!
# A walk comes to every node that is reached

A walk leaves out a node whose key is on the path already, and takes every path without a repeated
key. With names apart such a path leads to every node that is reached from the root, also if every
way to it goes round a cycle. So the rules are called on these nodes, on all of their literals, and
on no others.
-/

namespace ApiLint

namespace Walk

/-- What a walk comes to that makes calls from an empty collector. -/
def findingsOf (calls : Collecting Unit) : Except Fault (List Finding) :=
  match calls.run {} with
  | (.ok (), collector) => .ok collector.findings
  | (.error fault, _) => .error fault

variable {g : Graph} {walker : Walker}

lemma findings_walk_of_collects {root : Child} {calls : Collecting Unit}
    (h : (visit walker g (depthBound g) root).Collects walker.base [] calls) :
    (walker.walk g root).findings = findingsOf calls := by
  obtain ⟨log, hrun⟩ := h ⟨⟨walker.base, [], {}⟩, [], [.debug logger
    (s!"Walking schema graph at {walker.base} with rules "
      ++ Raw.inspectNames walker.rules.names)]⟩ rfl rfl
  simp only [Walker.walk, hrun, findingsOf]
  cases calls.run {} with
  | mk outcome collector => cases outcome <;> rfl

/-- A walk of a well-formed graph makes the calls at the ends of the listed paths, one after the
other. -/
lemma findings_walk_eq_findingsOf (hg : g.IsWellFormed)
    (hrules : ∀ rule ∈ walker.rules.rules, rule.IsLocal g) {root : Child}
    (hroot : ∃ result, g.resolve root = .ok result) (hnamed : g.NamesRepeats [] root) :
    (walker.walk g root).findings
      = findingsOf ((listing walker g (depthBound g) [] walker.base root).forM fun e =>
          callsAt walker.rules g e.2) := by
  apply findings_walk_of_collects
  apply visitOr_collects hg hrules _ _ hroot hnamed
  simpa using card_keys_lt_depthBound g

/-- An unrestricted walk stops at the places that are reached, and nowhere else. -/
lemma exists_mem_listing_iff_reaches (hstop : walker.stopAtReferences = false) {root : Nat}
    (hroot : root < g.nodes.size) (hnames : g.NamesApart root) (place : Nat) :
    (∃ e ∈ listing walker g (depthBound g) [] walker.base (.node root), e.2.place = place)
      ↔ g.Reaches root place := by
  have hdepth : (g.keys \ ([] : List NodeKey).toFinset).card < depthBound g := by
    simpa using card_keys_lt_depthBound g
  have hresolve := Graph.resolve_node (Array.getElem?_eq_getElem hroot)
  constructor
  · rintro ⟨⟨path, stop⟩, hmem, rfl⟩
    obtain ⟨stops, htrail, hlast, -⟩ := (mem_listing hdepth).mp hmem
    exact reaches_of_mem_trail htrail hresolve .root (List.mem_of_getLast? hlast)
  · intro hreached
    obtain ⟨path, stops, stop, htrail, hnodup, hlast, hplace⟩ :=
      exists_trail_of_reaches hroot hnames walker.base hreached
    refine ⟨(path, stop), (mem_listing hdepth).mpr ⟨stops, htrail, hlast, ?_⟩, hplace⟩
    apply isOpen_nil_iff.mpr
    simp [hnodup, hstop]

end Walk

namespace Graph

/-- Places beyond the graph are not reached. -/
lemma Reaches.lt_size {g : Graph} {root place : Nat} (hroot : root < g.nodes.size)
    (h : g.Reaches root place) : place < g.nodes.size := by
  cases h with
  | root => exact hroot
  | step _ _ _ hfound =>
    obtain ⟨_, hnode⟩ := resolve_eq_ok_iff.mp hfound
    exact (Array.getElem?_eq_some_iff.mp hnode).1

/-- Names are apart if no two nodes of the whole graph have the same. -/
lemma namesApart_of_forall {g : Graph} {root : Nat} (hroot : root < g.nodes.size)
    (h : ∀ p < g.nodes.size, ∀ q < g.nodes.size, (g.nameAt? p).isSome → g.nameAt? p = g.nameAt? q →
      p = q) : g.NamesApart root := by
  intro p q name hp hq hpname hqname
  apply h p (hp.lt_size hroot) q (hq.lt_size hroot)
  · simp [hpname]
  · rw [hpname, hqname]

end Graph

open Walk in
/-- An unrestricted walk of a well-formed graph in which names are apart and all nodes can be named
calls the rules at stops on the nodes that are reached from the root, at least once on each, and at
no other stops. There it calls the rules of schemas on the node and those of literals on its
default, its example and the members of its enumeration; the first failure of a rule ends it. So if
rules only report, all that they find on a node is among the findings, whatever the cycles on the
way to the node. -/
theorem Walker.walk_calls_at_reached {g : Graph} (hg : g.IsWellFormed) (hnamed : g.IsDescribed)
    {root : Nat} (hroot : root < g.nodes.size) (hnames : g.NamesApart root) (base : Pointer) :
    ∃ stops : List Stop,
      (∀ place, (∃ stop ∈ stops, stop.place = place) ↔ g.Reaches root place)
      ∧ (∀ stop ∈ stops, g.nodes[stop.place]? = some stop.node
          ∧ ∃ path, arrival? g base (.node root) path = some stop)
      ∧ (∀ rules : RuleSet, (∀ rule ∈ rules.rules, rule.IsLocal g) →
          ((Walker.mk rules base false).walk g (.node root)).findings
            = findingsOf (stops.forM (callsAt rules g)))
      ∧ ∀ (rules : RuleSet) (found : Rule → Examination),
          (∀ rule ∈ rules.rules, rule.Reports g (found rule)) →
          ∃ findings,
            ((Walker.mk rules base false).walk g (.node root)).findings = .ok findings
            ∧ ∀ place node, g.Reaches root place → g.nodes[place]? = some node →
              ∃ pointer, findingsAt rules found ⟨pointer, place, node⟩ ⊆ findings := by
  have hresolve : ∃ result, g.resolve (.node root) = .ok result :=
    ⟨_, Graph.resolve_node (Array.getElem?_eq_getElem hroot)⟩
  have hdepth : (g.keys \ ([] : List NodeKey).toFinset).card < depthBound g := by
    simpa using card_keys_lt_depthBound g
  let walker : Walker := ⟨⟨[]⟩, base, false⟩
  have hstop : walker.stopAtReferences = false := rfl
  let visits := listing walker g (depthBound g) [] base (.node root)
  -- The stops are those of a walk without rules: which nodes are visited does not depend on the
  -- rules.
  have hvisits : ∀ rules : RuleSet,
      listing ⟨rules, base, false⟩ g (depthBound g) [] base (.node root) = visits :=
    fun rules => listing_congr (by rfl)
  have hreached : ∀ place, (∃ e ∈ visits, e.2.place = place) ↔ g.Reaches root place :=
    exists_mem_listing_iff_reaches hstop hroot hnames
  refine ⟨visits.map Prod.snd, ?_, ?_, ?_, ?_⟩
  · intro place
    rw [← hreached place]
    constructor
    · rintro ⟨stop, hstop, rfl⟩
      obtain ⟨e, he, rfl⟩ := List.mem_map.mp hstop
      exact ⟨e, he, rfl⟩
    · rintro ⟨e, he, rfl⟩
      exact ⟨e.2, List.mem_map_of_mem he, rfl⟩
  · intro stop hstop
    obtain ⟨e, he, rfl⟩ := List.mem_map.mp hstop
    exact ⟨getElem?_of_mem_listing he, e.1, arrival?_of_mem_listing hdepth he⟩
  · intro rules hrules
    rw [findings_walk_eq_findingsOf hg hrules hresolve (hnamed.namesRepeats [] _), hvisits]
    simp only [List.forM_eq_forM, List.forM_map]
  · intro rules found hrules
    refine ⟨_, findings_walk hg hrules hresolve (hnamed.namesRepeats [] _), ?_⟩
    intro place node hplace hnode
    obtain ⟨⟨path, stop⟩, hmem, rfl⟩ := (hreached place).mpr hplace
    rw [getElem?_of_mem_listing hmem] at hnode
    cases hnode
    refine ⟨stop.pointer, ?_⟩
    intro finding hfinding
    rw [hvisits]
    exact List.mem_flatMap.mpr ⟨(path, stop), hmem, hfinding⟩

/-- Two components that lead to each other through nodes in line, each only round the cycle: the
second one stands below the first one's property, and its own items lead back. -/
def Graph.ring : Graph :=
  ⟨#[{ SchemaNode.blank with properties := [("x", .node 1)], reference := some "A" },
      { SchemaNode.blank with
        allOf := [.node 0], items := some (.node 2), exampleValue := some (.scalar .null .null) },
      { SchemaNode.blank with
        oneOf := [.node 0, .node 3], enumValues := [.scalar .null .null], reference := some "B" },
      { SchemaNode.blank with additional := some (.node 2), anyOf := [.node 1] }]⟩

theorem Walker.walk_calls_at_reached_ring :
    Graph.ring.IsWellFormed ∧ Graph.ring.IsDescribed ∧ 0 < Graph.ring.nodes.size
    ∧ Graph.ring.NamesApart 0
    ∧ ∃ stops : List Walk.Stop,
      (∀ place, (∃ stop ∈ stops, stop.place = place) ↔ Graph.ring.Reaches 0 place)
      ∧ (∀ stop ∈ stops, Graph.ring.nodes[stop.place]? = some stop.node
          ∧ ∃ path, Walk.arrival? .ring "#/s" (.node 0) path = some stop)
      ∧ (∀ rules : RuleSet, (∀ rule ∈ rules.rules, rule.IsLocal .ring) →
          ((Walker.mk rules "#/s" false).walk .ring (.node 0)).findings
            = Walk.findingsOf (stops.forM (Walk.callsAt rules .ring)))
      ∧ ∀ (rules : RuleSet) (found : Rule → Examination),
          (∀ rule ∈ rules.rules, rule.Reports .ring (found rule)) →
          ∃ findings,
            ((Walker.mk rules "#/s" false).walk .ring (.node 0)).findings = .ok findings
            ∧ ∀ place node, Graph.ring.Reaches 0 place → Graph.ring.nodes[place]? = some node →
              ∃ pointer, Walk.findingsAt rules found ⟨pointer, place, node⟩ ⊆ findings := by
  have hg : Graph.ring.IsWellFormed := by decide
  have hnamed : Graph.ring.IsDescribed := by decide
  have hroot : 0 < Graph.ring.nodes.size := by decide
  have hnames : Graph.ring.NamesApart 0 := Graph.namesApart_of_forall hroot (by decide)
  exact ⟨hg, hnamed, hroot, hnames, Walker.walk_calls_at_reached hg hnamed hroot hnames "#/s"⟩

end ApiLint
