import ApiLint.Proofs.Matching.Equations
import ApiLint.Proofs.Schema.Sound
import ApiLint.Proofs.Walk.Reports
import ApiLint.Rule.Set

/-!
# The rules of the library on sound graphs

On a sound graph the rules of the library never fail: the matcher meets no child that is no schema
and no literal that is no value, and only compositions with alternatives are searched for
discriminators. What a rule reports, it reports under its own name.
-/

namespace ApiLint

/-- The set of the rules of the library. -/
def RuleSet.builtin : RuleSet := ⟨Rule.builtin⟩

namespace Check

lemma run_get_bind {α : Type} (next : Context → Check α) (c : Context) :
    (get >>= next).run c = (next c).run c := rfl

lemma run_extend (c : Context) (fs : List Finding) :
    (Check.extend (fs.map .finding)).run c = (.ok (), c.append fs) := by
  rw [Check.extend, run_get_bind, Collector.extend_findings]
  rfl

/-- Reporting what an examination finds is adding it to the collector. -/
lemma run_extendBy {examine : Pointer → Except Fault (List Finding)} {c : Context}
    {fs : List Finding} (h : examine c.pointer = .ok fs) :
    (Check.extendBy examine).run c = (.ok (), c.append fs) := by
  rw [Check.extendBy, run_get_bind, h]
  exact run_extend c fs

end Check

namespace Examination

variable (g : Graph)

/-- What the matcher finds. -/
def ofMatching : Examination :=
  ⟨fun _ _ _ => [],
    fun pointer place _ value =>
      (Matching.mismatches g (.node place) pointer value).toOption.getD []⟩

/-- What is found about the members of a composition. -/
def ofComposition (kind : CompositionKind) : Examination :=
  ⟨fun pointer _ node => (Discrimination.findings g node kind pointer).toOption.getD [],
    fun _ _ _ _ => []⟩

/-- What a rule of the library finds. -/
def ofBuiltin (rule : Rule) : Examination :=
  if rule.name = Matching.ruleName then ofMatching g
  else if rule.name = Discrimination.oneOfRuleName then ofComposition g .oneOf
  else ofComposition g .anyOf

end Examination

namespace Matching

variable {g : Graph}

/-- The schema of the elements and those of the members of an object are children of the node. -/
lemma exists_of_items {node : Node} (hg : g.IsWellFormed) (hnode : node ∈ g.nodes) {child : Child}
    (hchild : node.items = some child) : ∃ found, g.resolve child = .ok found := by
  obtain ⟨_, hitems, _⟩ := @SchemaNode.forall_mem_children_iff _
    (fun child => ∃ found, g.resolve child = .ok found) node |>.mp (hg.child node hnode)
  exact hitems child hchild

lemma exists_of_memberSchema? {node : Node} (hg : g.IsWellFormed) (hnode : node ∈ g.nodes)
    {name : String} {child : Child} (hchild : memberSchema? node name = some child) :
    ∃ found, g.resolve child = .ok found := by
  obtain ⟨hproperty, _, hadditional, _⟩ := @SchemaNode.forall_mem_children_iff _
    (fun child => ∃ found, g.resolve child = .ok found) node |>.mp (hg.child node hnode)
  rw [memberSchema?] at hchild
  split at hchild
  · next found hfound =>
    cases hchild
    exact hproperty _ (Fields.mem_of_find? hfound)
  · exact hadditional child hchild

/-- What the matcher comes to if it does not fail: mismatches. -/
def Finds (outcome : Except Fault (List Finding)) : Prop :=
  ∃ fs, outcome = .ok fs ∧ ∀ f ∈ fs, f.rule = ruleName

lemma finds_nil : Finds (.ok []) := ⟨[], rfl, by simp⟩

lemma finds_mismatch (pointer : Pointer) : Finds (.ok [mismatch pointer]) :=
  ⟨_, rfl, by simp [mismatch]⟩

lemma finds_append {first second : Except Fault (List Finding)} (h : Finds first)
    (h' : Finds second) :
    Finds (do
      let here ← first
      let others ← second
      return here ++ others) := by
  obtain ⟨fs, rfl, hfs⟩ := h
  obtain ⟨gs, rfl, hgs⟩ := h'
  exact ⟨fs ++ gs, rfl, List.forall_mem_append.mpr ⟨hfs, hgs⟩⟩

/-- A literal that is matched without a failure against whatever node. -/
def Matches (g : Graph) (value : Literal) : Prop :=
  ∀ child pointer, (∃ found, g.resolve child = .ok found) → Finds (mismatches g child pointer value)

lemma finds_itemMismatches {items : List Literal} (h : ∀ item ∈ items, Matches g item)
    {child : Child} (hchild : ∃ found, g.resolve child = .ok found) (pointer : Pointer)
    (index : Nat) : Finds (itemMismatches g child pointer index items) := by
  induction items generalizing index with
  | nil =>
    rw [itemMismatches]
    exact finds_nil
  | cons item rest ih =>
    obtain ⟨hitem, hrest⟩ := List.forall_mem_cons.mp h
    rw [itemMismatches]
    apply finds_append
    · exact hitem _ _ hchild
    · exact ih hrest (index + 1)

lemma finds_memberMismatches (hg : g.IsWellFormed) {node : Node} (hnode : node ∈ g.nodes)
    {members : List (String × Literal)} (h : ∀ m ∈ members, Matches g m.2) (pointer : Pointer) :
    Finds (memberMismatches g node pointer members) := by
  induction members with
  | nil =>
    rw [memberMismatches]
    exact finds_nil
  | cons member rest ih =>
    obtain ⟨name, value⟩ := member
    obtain ⟨hvalue, hrest⟩ := List.forall_mem_cons.mp h
    rw [memberMismatches]
    split
    · next child hchild =>
      apply finds_append
      · exact hvalue _ _ (exists_of_memberSchema? hg hnode hchild)
      · exact ih hrest
    · exact finds_append finds_nil (ih hrest)

lemma finds_underType {node : Node} {type : String} {pointer : Pointer}
    {parts : Except Fault (List Finding)} (h : Finds parts) :
    Finds (underType node type pointer parts) := by
  rw [underType]
  split
  · exact finds_nil
  · split
    · exact h
    · exact finds_mismatch pointer

lemma finds_elementMismatches (hg : g.IsWellFormed) {node : Node} (hnode : node ∈ g.nodes)
    {items : List Literal} (h : ∀ item ∈ items, Matches g item) (pointer : Pointer) :
    Finds (elementMismatches g node pointer items) := by
  rw [elementMismatches]
  split
  · next child hchild => exact finds_itemMismatches h (exists_of_items hg hnode hchild) pointer 0
  · exact finds_nil

/-- On a well-formed graph, values are matched without a failure. -/
lemma matches_of_isValue (hg : g.IsWellFormed) {value : Literal} (hvalue : value.IsValue) :
    Matches g value := by
  -- A value holds no foreign part, so the two faults of the matcher are a schema that leads nowhere,
  -- which the graph rules out, and a foreign literal, which has no case here.
  induction hvalue with
  | scalar kind payload =>
    rintro child pointer ⟨⟨place, node⟩, hresolve⟩
    rw [mismatches_scalar hresolve]
    split
    · exact finds_nil
    · exact finds_mismatch pointer
  | array _ ih =>
    rintro child pointer ⟨⟨place, node⟩, hresolve⟩
    have hnode : node ∈ g.nodes := Array.mem_of_getElem? (Graph.resolve_eq_ok_iff.mp hresolve).2
    rw [mismatches_array hresolve]
    exact finds_underType (finds_elementMismatches hg hnode ih pointer)
  | object _ ih =>
    rintro child pointer ⟨⟨place, node⟩, hresolve⟩
    have hnode : node ∈ g.nodes := Array.mem_of_getElem? (Graph.resolve_eq_ok_iff.mp hresolve).2
    rw [mismatches_object hresolve]
    exact finds_underType (finds_memberMismatches hg hnode ih pointer)

end Matching

namespace Discrimination

variable {g : Graph}

lemma exists_membersFindings {rule property : String} {pointer : Pointer} {children : List Child}
    (h : ∀ child ∈ children, ∃ found, g.resolve child = .ok found) (index : Nat) :
    ∃ fs, membersFindings g rule pointer property index children = .ok fs
      ∧ ∀ f ∈ fs, f.rule = rule := by
  induction children generalizing index with
  | nil => exact ⟨[], rfl, by simp⟩
  | cons child rest ih =>
    obtain ⟨⟨⟨place, node⟩, hresolve⟩, hrest⟩ := List.forall_mem_cons.mp h
    obtain ⟨fs, hfs, hrule⟩ := ih hrest (index + 1)
    rw [membersFindings, hresolve]
    dsimp only
    rw [hfs]
    refine ⟨_, rfl, List.forall_mem_append.mpr ⟨?_, hrule⟩⟩
    intro f hf
    rw [memberFindings, List.mem_append] at hf
    rcases hf with hf | hf <;> split at hf <;> simp_all

/-- If the children of a node are schemas, a composition with alternatives is searched without a
failure. -/
lemma exists_findings {node : Node} (hnode : ∀ e ∈ node.children, ∃ found, g.resolve e.2 = .ok found)
    {kind : CompositionKind} {own : String} (hown : ruleName? kind = some own) (pointer : Pointer) :
    ∃ fs, findings g node kind pointer = .ok fs ∧ ∀ f ∈ fs, f.rule = own := by
  obtain ⟨_, _, _, honeOf, hanyOf, hallOf⟩ := @SchemaNode.forall_mem_children_iff _
    (fun child => ∃ found, g.resolve child = .ok found) node |>.mp hnode
  have hmembers : ∀ child ∈ node.composition kind, ∃ found, g.resolve child = .ok found := by
    cases kind with
    | oneOf => exact honeOf
    | anyOf => exact hanyOf
    | allOf => exact hallOf
  rw [findings, hown]
  dsimp only
  split
  · exact ⟨[], rfl, by simp⟩
  · exact exists_membersFindings hmembers 0

end Discrimination

/-- On a sound graph, the rules of the library only report. -/
theorem Graph.IsSound.builtin_reports {g : Graph} (hg : g.IsSound) :
    ∀ rule ∈ Rule.builtin, rule.Reports g (Examination.ofBuiltin g rule) := by
  have hcomposition : ∀ kind own, Discrimination.ruleName? kind = some own →
      (Rule.discriminated own kind).Reports g (Examination.ofComposition g kind) := by
    intro kind own hown
    apply Rule.Reports.ofSchema
    intro c place node hnode
    obtain ⟨fs, hfs, _⟩ :=
      Discrimination.exists_findings (hg node (Array.mem_of_getElem? hnode)).child hown c.pointer
    apply Check.run_extendBy
    rw [hfs]
    rfl
  intro rule hrule
  rcases Rule.mem_builtin_iff.mp hrule with rfl | rfl | rfl
  · apply Rule.Reports.ofLiteral
    intro c place node segments value hnode hvalue
    have hliteral := (hg node (Array.mem_of_getElem? hnode)).literal _ hvalue
    obtain ⟨fs, hfs, _⟩ :=
      Matching.matches_of_isValue hg.isWellFormed hliteral (.node place) c.pointer
        ⟨_, Graph.resolve_node hnode⟩
    apply Check.run_extendBy
    rw [hfs]
    rfl
  · exact hcomposition .oneOf _ rfl
  · exact hcomposition .anyOf _ rfl

namespace Examination

variable {g : Graph} {rule : Rule} {pointer : Pointer} {place : Nat} {node : Node} {f : Finding}

lemma rule_of_mem_onSchema (hg : g.IsSound) (hrule : rule ∈ Rule.builtin)
    (hnode : g.nodes[place]? = some node) (hf : f ∈ (ofBuiltin g rule).onSchema pointer place node) :
    f.rule = rule.name := by
  have hcomposition : ∀ kind own, Discrimination.ruleName? kind = some own →
      f ∈ (ofComposition g kind).onSchema pointer place node → f.rule = own := by
    intro kind own hown hf
    obtain ⟨fs, hfs, hall⟩ :=
      Discrimination.exists_findings (hg node (Array.mem_of_getElem? hnode)).child hown pointer
    simp only [ofComposition, hfs] at hf
    exact hall f hf
  rcases Rule.mem_builtin_iff.mp hrule with rfl | rfl | rfl
  · cases hf
  · exact hcomposition .oneOf _ rfl hf
  · exact hcomposition .anyOf _ rfl hf

lemma rule_of_mem_onLiteral (hg : g.IsSound) (hrule : rule ∈ Rule.builtin)
    (hnode : g.nodes[place]? = some node) {segments : List String} {value : Literal}
    (hvalue : (segments, value) ∈ node.literals)
    (hf : f ∈ (ofBuiltin g rule).onLiteral pointer place node value) : f.rule = rule.name := by
  rcases Rule.mem_builtin_iff.mp hrule with rfl | rfl | rfl
  · have hliteral := (hg node (Array.mem_of_getElem? hnode)).literal _ hvalue
    obtain ⟨fs, hfs, hall⟩ :=
      Matching.matches_of_isValue hg.isWellFormed hliteral (.node place) pointer
        ⟨_, Graph.resolve_node hnode⟩
    change f ∈ (Matching.mismatches g (.node place) pointer value).toOption.getD [] at hf
    rw [hfs] at hf
    exact hall f hf
  · cases hf
  · cases hf

/-- What a rule of the library finds in a sound graph, it reports under its own name. -/
lemma rule_of_mem_findingsAt (hg : g.IsSound) {rules : RuleSet}
    (hrules : ∀ rule ∈ rules.rules, rule ∈ Rule.builtin) {stop : Walk.Stop}
    (hnode : g.nodes[stop.place]? = some stop.node)
    (hf : f ∈ Walk.findingsAt rules (ofBuiltin g) stop) : f.rule ∈ rules.names := by
  rw [Walk.findingsAt, List.mem_append] at hf
  rcases hf with hf | hf
  · obtain ⟨rule, hrule, hf⟩ := List.mem_flatMap.mp hf
    have hmem := List.mem_of_mem_filter hrule
    rw [rule_of_mem_onSchema hg (hrules rule hmem) hnode hf]
    exact List.mem_map_of_mem hmem
  · obtain ⟨⟨segments, value⟩, hvalue, hf⟩ := List.mem_flatMap.mp hf
    obtain ⟨rule, hrule, hf⟩ := List.mem_flatMap.mp hf
    have hmem := List.mem_of_mem_filter hrule
    rw [rule_of_mem_onLiteral hg (hrules rule hmem) hnode hvalue hf]
    exact List.mem_map_of_mem hmem

end Examination

end ApiLint
