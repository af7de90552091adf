import ApiLint.Proofs.Walk.Reached

/-!
# A walk is rejected at its first defect

A walk looks at the slots of a node before it calls rules on it. So with rules that never fail on
the nodes that they are called on, a walk fails if and only if its root is no schema or it takes a
path to a malformed node. The fault then carries the place of the first bad slot of the first such
node, and the rules were called at the stops before that node and nowhere else. But a message shows
the value in the place of a literal, and if that has no text the fault says so instead.
-/

namespace ApiLint

open Walk

/-- A rule that never fails on the nodes of a graph that are not malformed, and deals with a context
through its pointer and its collector alone. What it would do on a malformed node plays no part. -/
structure Rule.NeverFails (g : Graph) (rule : Rule) : Prop extends
    rule.IsLocalOn g fun node => ¬IsMalformed g node where
  schema_ok : ∀ place node, g.nodes[place]? = some node → ¬IsMalformed g node →
    ∀ c, ((rule.onSchema g place node).run c).1 = .ok ()
  literal_ok : ∀ place node segments value, g.nodes[place]? = some node → ¬IsMalformed g node →
    (segments, value) ∈ node.literals → ∀ c, ((rule.onLiteral g place node value).run c).1 = .ok ()

/-- A rule that only reports never fails. -/
lemma Rule.Reports.neverFails {g : Graph} {rule : Rule} {found : Examination}
    (h : rule.Reports g found) : rule.NeverFails g where
  toIsLocalOn := h.isLocal.on _
  schema_ok place node hnode _ c := by rw [h.onSchema c place node hnode]
  literal_ok place node segments value hnode _ hvalue c := by
    rw [h.onLiteral c place node segments value hnode hvalue]

namespace Walk

/-! ### Acts that do not fail -/

/-- An act that does not fail on any collector. -/
def Succeeds (act : Collecting Unit) : Prop := ∀ c, ∃ c', act.run c = (.ok (), c')

namespace Succeeds

lemma bind {first second : Collecting Unit} (h : Succeeds first) (h' : Succeeds second) :
    Succeeds (do first; second) := by
  intro c
  obtain ⟨c', hfirst⟩ := h c
  obtain ⟨c'', hsecond⟩ := h' c'
  exact ⟨c'', by rw [run_bind_except, hfirst]; exact hsecond⟩

lemma forM {α : Type} {xs : List α} {act : α → Collecting Unit}
    (h : ∀ x ∈ xs, Succeeds (act x)) : Succeeds (xs.forM act) := by
  induction xs with
  | nil => exact fun c => ⟨c, rfl⟩
  | cons x xs ih =>
    obtain ⟨hx, hxs⟩ := List.forall_mem_cons.mp h
    exact hx.bind (ih hxs)

lemma collecting {act : Check Unit} (h : ∀ c, (act.run c).1 = .ok ()) (pointer : Pointer) :
    Succeeds (act.collecting pointer) := by
  intro c
  have hrun : (act.collecting pointer).run c
      = ((act.run ⟨pointer, [], c⟩).1, (act.run ⟨pointer, [], c⟩).2.collector) := rfl
  rw [hrun, h]
  exact ⟨_, rfl⟩

lemma exists_findings {act : Collecting Unit} (h : Succeeds act) :
    ∃ findings, findingsOf act = .ok findings := by
  obtain ⟨c, hrun⟩ := h {}
  exact ⟨c.findings, by rw [findingsOf, hrun]⟩

/-- A failure after an act that does not fail is what both come to. -/
lemma findingsOf_throw {act : Collecting Unit} (h : Succeeds act) (fault : Fault) :
    findingsOf (do act; throw fault) = .error fault := by
  obtain ⟨c, hrun⟩ := h {}
  rw [findingsOf, run_bind_except, hrun]
  rfl

end Succeeds

variable {g : Graph} {walker : Walker} {root : Child}

lemma callsAt_succeeds {rules : RuleSet} (hrules : ∀ rule ∈ rules.rules, rule.NeverFails g)
    {stop : Stop} (hnode : g.nodes[stop.place]? = some stop.node)
    (hgood : ¬IsMalformed g stop.node) : Succeeds (callsAt rules g stop) := by
  have hcalled : ∀ kind, ∀ rule ∈ rules.rulesFor kind, rule.NeverFails g := fun kind rule hrule =>
    hrules rule (List.mem_of_mem_filter hrule)
  apply Succeeds.bind
  · apply Succeeds.forM
    intro rule hrule
    exact .collecting ((hcalled _ rule hrule).schema_ok _ _ hnode hgood) _
  · apply Succeeds.forM
    rintro ⟨segments, value⟩ hvalue
    apply Succeeds.forM
    intro rule hrule
    exact .collecting ((hcalled _ rule hrule).literal_ok _ _ _ _ hnode hgood hvalue) _

/-! ### What is done along a listing -/

lemma examineAt_of_not_isMalformed {rules : RuleSet} {stop : Stop}
    (h : ¬IsMalformed g stop.node) : examineAt rules g stop = callsAt rules g stop := by
  simp only [examineAt, defects_eq_nil_iff.mpr h, List.head?_nil]

/-- A malformed node is a fault at its first bad slot, which is not one of the root. -/
lemma exists_examineAt_eq_throw {stop : Stop} (h : IsMalformed g stop.node) (rules : RuleSet) :
    ∃ segments defect, firstBad? g stop.node = some segments
      ∧ (defects g stop.node).head? = some (segments, defect)
      ∧ examineAt rules g stop = throw (defect.faultAt (stop.pointer.join segments)) := by
  obtain ⟨_, hfirst⟩ := isMalformed_iff.mp h
  rw [← head?_defects, Option.map_eq_some_iff] at hfirst
  obtain ⟨⟨segments, defect⟩, hhead, rfl⟩ := hfirst
  refine ⟨segments, defect, ?_, hhead, ?_⟩
  · rw [← head?_defects, hhead]
    rfl
  · simp only [examineAt, hhead]

/-- Along stops of which one is the first at a malformed node, the rules are called up to there. -/
lemma forM_examineAt_append {rules : RuleSet} {before after : List (List Nat × Stop)}
    {e : List Nat × Stop} {fault : Fault} (hbefore : ∀ e ∈ before, ¬IsMalformed g e.2.node)
    (hfault : examineAt rules g e.2 = throw fault) :
    ((before ++ e :: after).forM fun e => examineAt rules g e.2)
      = (do before.forM fun e => callsAt rules g e.2; throw fault) := by
  have hcalls : (before.forM fun e => examineAt rules g e.2)
      = before.forM fun e => callsAt rules g e.2 :=
    forM_congr fun e he => examineAt_of_not_isMalformed (hbefore e he)
  simp only [List.forM_eq_forM] at hcalls ⊢
  rw [List.forM_append, hcalls, List.forM_cons, hfault]
  rfl

/-- The first element that has a property. -/
lemma exists_first {α : Type} (P : α → Prop) {xs : List α} (h : ∃ x ∈ xs, P x) :
    ∃ before x after, xs = before ++ x :: after ∧ P x ∧ ∀ y ∈ before, ¬P y := by
  classical
  obtain ⟨x, hx, hP⟩ := h
  have hsome : (xs.find? fun x => decide (P x)).isSome := List.find?_isSome.mpr ⟨x, hx, by simpa⟩
  obtain ⟨first, hfirst⟩ := Option.isSome_iff_exists.mp hsome
  obtain ⟨hP, before, after, rfl, hbefore⟩ := List.find?_eq_some_iff_append.mp hfirst
  exact ⟨before, first, after, rfl, by simpa using hP, by simpa using hbefore⟩

/-- The stops of a walk, with the paths that it takes to them, in the order of the paths. -/
def stopsOf (walker : Walker) (g : Graph) (root : Child) : List (List Nat × Stop) :=
  listing walker g (depthBound g) [] walker.base root

lemma mem_stopsOf {e : List Nat × Stop} : e ∈ stopsOf walker g root
    ↔ IsTaken walker g root e.1 ∧ arrival? g walker.base root e.1 = some e.2 := by
  have hdepth : (g.keys \ ([] : List NodeKey).toFinset).card < depthBound g := by
    simpa using card_keys_lt_depthBound g
  obtain ⟨path, stop⟩ := e
  constructor
  · intro he
    exact ⟨(mem_listing_root_iff (card_keys_lt_depthBound g)).mp ⟨stop, he⟩,
      arrival?_of_mem_listing hdepth he⟩
  · rintro ⟨htaken, harrival⟩
    obtain ⟨stop', he⟩ := (mem_listing_root_iff (card_keys_lt_depthBound g)).mpr htaken
    rw [arrival?_of_mem_listing hdepth he] at harrival
    cases harrival
    exact he

lemma pairwise_stopsOf : (stopsOf walker g root).Pairwise fun e e' => e.1 < e'.1 :=
  pairwise_listing ..

/-- The stops before one of the stops of a walk are those with a smaller path. -/
lemma mem_of_stopsOf_eq {before after : List (List Nat × Stop)} {e other : List Nat × Stop}
    (h : stopsOf walker g root = before ++ e :: after) :
    other ∈ before ↔ IsTaken walker g root other.1 ∧ other.1 < e.1
      ∧ arrival? g walker.base root other.1 = some other.2 := by
  have hpairwise : (before ++ e :: after).Pairwise fun e e' => e.1 < e'.1 := h ▸ pairwise_stopsOf
  obtain ⟨-, hafter, hbefore⟩ := List.pairwise_append.mp hpairwise
  have hmem : other ∈ before ∨ other = e ∨ other ∈ after
      ↔ IsTaken walker g root other.1 ∧ arrival? g walker.base root other.1 = some other.2 := by
    rw [← mem_stopsOf, h, List.mem_append, List.mem_cons]
  constructor
  · intro hother
    obtain ⟨htaken, harrival⟩ := hmem.mp (.inl hother)
    exact ⟨htaken, hbefore other hother e (List.mem_cons_self ..), harrival⟩
  · rintro ⟨htaken, hlt, harrival⟩
    rcases hmem.mpr ⟨htaken, harrival⟩ with hother | rfl | hother
    · exact hother
    · exact absurd hlt (List.lt_irrefl _)
    · exact absurd (hlt.trans ((List.pairwise_cons.mp hafter).1 other hother)) (List.lt_irrefl _)

/-! ### Walks -/

/-- How a walk is rejected at a malformed node: it takes a path to the node, and at the ends of the
smaller paths that it takes no node is malformed. The rules are called there and nowhere else, and
then the first bad slot of the node is a fault. -/
structure RejectedAt (walker : Walker) (g : Graph) (root : Child) (path : List Nat) (stop : Stop)
    (segments : List String) (defect : GraphDefect) (earlier : List (List Nat × Stop)) : Prop where
  taken : IsTaken walker g root path
  arrival : arrival? g walker.base root path = some stop
  firstBad : firstBad? g stop.node = some segments
  first : (defects g stop.node).head? = some (segments, defect)
  sorted : (earlier.map Prod.fst).Pairwise (· < ·)
  mem_earlier : ∀ e, e ∈ earlier ↔ IsTaken walker g root e.1 ∧ e.1 < path
    ∧ arrival? g walker.base root e.1 = some e.2
  good : ∀ e ∈ earlier, ¬IsMalformed g e.2.node
  visit : (visit walker g (depthBound g) root).Collects walker.base []
    (do
      earlier.forM fun e => callsAt walker.rules g e.2
      throw (defect.faultAt (stop.pointer.join segments)))

/-- The visit of a root that is no schema fails at once. -/
lemma visit_collects_of_nonSchema {raw : Raw} (h : g.resolve root = .error raw) :
    (visit walker g (depthBound g) root).Collects walker.base []
      (throw (.invalidGraph ⟨.root raw.kindName, some walker.base⟩)) :=
  visitStep_collects_of_nonSchema h

/-- The visit of a root that is a schema does at the stops of the walk what is to be done there. -/
lemma visit_examines
    (hrules : ∀ rule ∈ walker.rules.rules, rule.IsLocalOn g fun node => ¬IsMalformed g node)
    (hroot : ∃ result, g.resolve root = .ok result) (hnamed : g.NamesRepeats [] root) :
    (visit walker g (depthBound g) root).Collects walker.base []
      ((stopsOf walker g root).forM fun e => examineAt walker.rules g e.2) := by
  apply visitOr_examines hrules _ _ hroot hnamed
  simpa using card_keys_lt_depthBound g

/-- A walk that stops at a malformed node is rejected at the first one. -/
lemma exists_rejectedAt
    (hrules : ∀ rule ∈ walker.rules.rules, rule.IsLocalOn g fun node => ¬IsMalformed g node)
    (hroot : ∃ result, g.resolve root = .ok result) (hnamed : g.NamesRepeats [] root)
    (hbad : ∃ e ∈ stopsOf walker g root, IsMalformed g e.2.node) :
    ∃ path stop segments defect earlier,
      RejectedAt walker g root path stop segments defect earlier := by
  obtain ⟨before, ⟨path, stop⟩, after, hstops, hmalformed, hbefore⟩ := exists_first _ hbad
  obtain ⟨segments, defect, hfirst, hhead, hthrow⟩ :=
    exists_examineAt_eq_throw hmalformed walker.rules
  obtain ⟨htaken, harrival⟩ : IsTaken walker g root path ∧ _ :=
    mem_stopsOf.mp (hstops ▸ List.mem_append_right _ (List.mem_cons_self ..))
  have hpairwise : (stopsOf walker g root).Pairwise fun e e' => e.1 < e'.1 := pairwise_stopsOf
  rw [hstops] at hpairwise
  have hvisit := visit_examines hrules hroot hnamed
  rw [hstops, forM_examineAt_append hbefore hthrow] at hvisit
  exact ⟨path, stop, segments, defect, before, htaken, harrival, hfirst, hhead,
    List.pairwise_map.mpr (List.pairwise_append.mp hpairwise).1, fun _ => mem_of_stopsOf_eq hstops,
    hbefore, hvisit⟩

variable (hrules : ∀ rule ∈ walker.rules.rules, rule.NeverFails g)
include hrules

lemma calls_succeed {stops : List (List Nat × Stop)} (hstops : stops ⊆ stopsOf walker g root)
    (hgood : ∀ e ∈ stops, ¬IsMalformed g e.2.node) :
    Succeeds (stops.forM fun e => callsAt walker.rules g e.2) :=
  .forM fun e he => callsAt_succeeds hrules (getElem?_of_mem_listing (hstops he)) (hgood e he)

/-- What a rejected walk comes to. -/
lemma RejectedAt.findings_walk {path : List Nat} {stop : Stop} {segments : List String}
    {defect : GraphDefect} {earlier : List (List Nat × Stop)}
    (h : RejectedAt walker g root path stop segments defect earlier) :
    (walker.walk g root).findings = .error (defect.faultAt (stop.pointer.join segments)) := by
  have hearlier : earlier ⊆ stopsOf walker g root := by
    intro e he
    obtain ⟨htaken, -, harrival⟩ := (h.mem_earlier e).mp he
    exact mem_stopsOf.mpr ⟨htaken, harrival⟩
  rw [findings_walk_of_collects h.visit]
  exact (calls_succeed hrules hearlier h.good).findingsOf_throw _

/-- A walk that stops at no malformed node is not rejected. -/
lemma exists_findings_walk (hroot : ∃ result, g.resolve root = .ok result)
    (hnamed : g.NamesRepeats [] root)
    (hgood : ∀ e ∈ stopsOf walker g root, ¬IsMalformed g e.2.node) :
    ∃ findings, (walker.walk g root).findings = .ok findings := by
  have hcalls : ((stopsOf walker g root).forM fun e => examineAt walker.rules g e.2)
      = (stopsOf walker g root).forM fun e => callsAt walker.rules g e.2 :=
    forM_congr fun e he => examineAt_of_not_isMalformed (hgood e he)
  rw [findings_walk_of_collects
    (visit_examines (fun rule hrule => (hrules rule hrule).toIsLocalOn) hroot hnamed), hcalls]
  exact (calls_succeed hrules (List.Subset.refl _) hgood).exists_findings

end Walk

/-- A walk of a graph whose nodes can be named, with rules that never fail, fails if and only if its
root is no schema, or it takes a path to a malformed node. If the root is no schema, the fault says
so at the base pointer, before anything is done. Otherwise it is the fault of the first bad slot of
the first malformed node in the order of the paths, and what was done before are the calls of the
rules at the stops before that node. That the graph is invalid says every such fault but that of a
value in the place of a literal that has no text, and none but that of the root says it of the root.
-/
theorem Walker.walk_rejects_first_defect {walker : Walker} {g : Graph} (hnamed : g.IsDescribed)
    (hrules : ∀ rule ∈ walker.rules.rules, rule.NeverFails g) (root : Child) :
    ((∃ fault, (walker.walk g root).findings = .error fault)
      ↔ (∃ raw, g.resolve root = .error raw)
        ∨ ∃ path stop, IsTaken walker g root path
          ∧ arrival? g walker.base root path = some stop ∧ IsMalformed g stop.node)
    ∧ ∀ fault, (walker.walk g root).findings = .error fault →
      (∃ raw, g.resolve root = .error raw
        ∧ fault = .invalidGraph ⟨.root raw.kindName, some walker.base⟩
        ∧ (visit walker g (depthBound g) root).Collects walker.base [] (throw fault))
      ∨ ∃ path stop segments defect earlier,
        RejectedAt walker g root path stop segments defect earlier
        ∧ (∀ kind, defect ≠ .root kind)
        ∧ ((fault = .invalidGraph ⟨defect, some (stop.pointer.join segments)⟩
            ∧ ∀ raw, defect = .literal raw → raw.isWritable = true)
          ∨ ∃ raw, defect = .literal raw ∧ raw.isWritable = false
            ∧ fault = .number .tooLongToWrite) := by
  have hmalformed : (∃ e ∈ stopsOf walker g root, IsMalformed g e.2.node)
      ↔ ∃ path stop, IsTaken walker g root path
        ∧ arrival? g walker.base root path = some stop ∧ IsMalformed g stop.node := by
    simp only [mem_stopsOf, Prod.exists, and_assoc]
  rw [← hmalformed]
  -- A root that is no schema is rejected before anything is called; if the root is one, the nodes
  -- on the way decide.
  cases hroot : g.resolve root with
  | error raw =>
    have hvisit : (visit walker g (depthBound g) root).Collects walker.base []
        (throw (.invalidGraph ⟨.root raw.kindName, some walker.base⟩)) :=
      visit_collects_of_nonSchema hroot
    rw [findings_walk_of_collects hvisit]
    refine ⟨⟨fun _ => .inl ⟨raw, rfl⟩, fun _ => ⟨_, rfl⟩⟩, ?_⟩
    intro fault hfault
    cases hfault
    exact .inl ⟨raw, rfl, rfl, hvisit⟩
  | ok found =>
    by_cases hbad : ∃ e ∈ stopsOf walker g root, IsMalformed g e.2.node
    · obtain ⟨path, stop, segments, defect, earlier, hrejected⟩ := exists_rejectedAt
        (fun rule hrule => (hrules rule hrule).toIsLocalOn) ⟨found, hroot⟩
        (hnamed.namesRepeats [] root) hbad
      rw [hrejected.findings_walk hrules]
      refine ⟨⟨fun _ => .inr hbad, fun _ => ⟨_, rfl⟩⟩, ?_⟩
      intro fault hfault
      cases hfault
      exact .inr ⟨path, stop, segments, defect, earlier, hrejected,
        ne_root_of_mem_defects (List.mem_of_head? hrejected.first), defect.faultAt_cases _⟩
    · obtain ⟨findings, hfindings⟩ := exists_findings_walk hrules ⟨found, hroot⟩
        (hnamed.namesRepeats [] root) (by simpa using hbad)
      rw [hfindings]
      simp [hbad]

/-- Three nodes, the last of which has several bad slots: the root leads back to itself below its
first property, and to the last node as its items. -/
def Graph.torn : Graph :=
  ⟨#[{ SchemaNode.blank with
        properties := [("x", .node 1)], items := some (.node 2), reference := some "A" },
      { SchemaNode.blank with allOf := [.node 0], enumValues := [.scalar .null .null] },
      { SchemaNode.blank with
        oneOf := [.node 1, .other (.str "Pet")], defaultValue := some (.foreign (.int 7)),
        reference := some "B" }]⟩

theorem Walker.walk_rejects_first_defect_torn :
    Graph.torn.IsDescribed
    ∧ (∀ rule ∈ [Rule.naming, Rule.tagging], rule.NeverFails .torn)
    ∧ ((∃ fault, ((Walker.mk ⟨[.naming, .tagging]⟩ "#/s" false).walk .torn (.node 0)).findings
          = .error fault)
        ↔ (∃ raw, Graph.torn.resolve (.node 0) = .error raw)
          ∨ ∃ path stop, Walk.IsTaken ⟨⟨[.naming, .tagging]⟩, "#/s", false⟩ .torn (.node 0) path
            ∧ Walk.arrival? .torn "#/s" (.node 0) path = some stop
            ∧ Walk.IsMalformed .torn stop.node) := by
  have hnamed : Graph.torn.IsDescribed := by decide
  have hrules : ∀ rule ∈ [Rule.naming, Rule.tagging], rule.NeverFails .torn := fun rule hrule =>
    (Rule.sample_reports _ rule hrule).neverFails
  exact ⟨hnamed, hrules, (Walker.walk_rejects_first_defect hnamed hrules (.node 0)).1⟩

/-- The last node is met below the items, and its bad member before its default. -/
example :
    ((Walker.mk ⟨[.naming, .tagging]⟩ "#/s" false).walk .torn (.node 0)).findings
      = .error (.invalidGraph ⟨.member "oneOf" 1, some "#/s/items/oneOf"⟩) := by
  rfl

/-- One node, with a raw value in the place of its default. -/
def Graph.spoilt (raw : Raw) : Graph :=
  ⟨#[{ SchemaNode.blank with defaultValue := some (.foreign raw) }]⟩

/-- A node with the empty reference and a raw value in the place of its items, as a property of
another node. -/
def Graph.nameless : Graph :=
  ⟨#[{ SchemaNode.blank with properties := [("a", .node 1)] },
    { SchemaNode.blank with items := some (.other (.int 5)), reference := some "" }]⟩

/-- A trail without references below the root does not leave the root. -/
lemma Walk.eq_nil_of_trail_nameless {path : List Nat} {stops : List Stop}
    (h : trail .nameless "#" (.node 0) path = some stops)
    (hnone : ∀ stop ∈ stops.tail, stop.node.reference = none) : path = [] := by
  cases path with
  | nil => rfl
  | cons i path =>
    obtain ⟨first, edge, next, rest, hfirst, hnext, hrest, rfl⟩ := trail_cons_eq_some_iff.mp h
    cases hfirst
    -- the only way down leads to the node with the reference
    obtain rfl : next = .node 1 := by
      cases i with
      | zero => cases hnext; rfl
      | succ i => cases hnext
    obtain ⟨second, others, hsecond, rfl⟩ := exists_cons_of_trail hrest
    cases hsecond
    cases hnone _ (List.mem_cons_self ..)

/-- A malformed node does not always have the graph called invalid: if the value in the place of a
literal is an integer of too many digits, the walk fails at its text. And a walk that stops at
references can be rejected for a node with a reference, since it takes the empty one for none. -/
theorem Walker.not_rejected_exactly_if_malformed :
    (¬∀ (walker : Walker) (g : Graph), g.IsDescribed →
      (∀ rule ∈ walker.rules.rules, rule.NeverFails g) → ∀ root,
        (∃ path stop, Walk.IsTaken walker g root path
          ∧ Walk.arrival? g walker.base root path = some stop ∧ Walk.IsMalformed g stop.node) →
        ∃ e, (walker.walk g root).findings = .error (.invalidGraph e))
    ∧ ¬∀ (walker : Walker) (g : Graph), g.IsDescribed →
      (∀ rule ∈ walker.rules.rules, rule.NeverFails g) → walker.stopAtReferences = true →
        ∀ root e, (walker.walk g root).findings = .error (.invalidGraph e) →
          (∃ raw, g.resolve root = .error raw)
          ∨ ∃ path stops stop, Walk.trail g walker.base root path = some stops
            ∧ (∀ s ∈ stops.tail, s.node.reference = none)
            ∧ stops.getLast? = some stop ∧ Walk.IsMalformed g stop.node := by
  constructor
  · intro hall
    let walker : Walker := ⟨⟨[]⟩, "#", false⟩
    let raw : Raw := .int (10 ^ 4300)
    have hnamed : (Graph.spoilt raw).IsDescribed := by decide
    have hmalformed : Walk.IsMalformed (Graph.spoilt raw)
        { SchemaNode.blank with defaultValue := some (.foreign raw) } := by
      by_contra hsound
      cases Walk.defects_eq_nil_iff.mpr hsound
    obtain ⟨e, he⟩ := hall walker (.spoilt raw) hnamed (by simp [walker]) (.node 0)
      ⟨[], ⟨"#", 0, _⟩, ⟨_, rfl, by decide, by decide⟩, rfl, hmalformed⟩
    have hfault : (walker.walk (.spoilt raw) (.node 0)).findings
        = .error (GraphDefect.faultAt (.literal raw) "#/default") := rfl
    have hlong : raw.isWritable = false := by decide +kernel
    rw [hfault, GraphDefect.faultAt, GraphDefect.isWritable, hlong] at he
    cases he
  · intro hall
    have hfault : ((Walker.mk ⟨[]⟩ "#" true).walk .nameless (.node 0)).findings
        = .error (.invalidGraph ⟨.slot "items" "int", some "#/properties/a/items"⟩) := by rfl
    rcases hall _ .nameless (by decide) (by simp) rfl (.node 0) _ hfault with
      ⟨raw, hraw⟩ | ⟨path, stops, stop, htrail, hnone, hlast, hmalformed⟩
    · cases hraw
    · cases Walk.eq_nil_of_trail_nameless htrail hnone
      cases htrail
      cases hlast
      revert hmalformed
      decide

end ApiLint
