import ApiLint.Proofs.Graph.Defects

/-!
# Acts that only report

Most of what a walk does leaves the pointer and the path as they are and adds findings to the
collector. `Visit.Reports` says this of an act, together with the findings, for every state at a
pointer and a path. The acts of a walk are put together of smaller ones; so are their findings.
-/

namespace ApiLint

/-- The context after findings. -/
def Context.append (c : Context) (fs : List Finding) : Context :=
  { c with collector := c.collector.append fs }

namespace Context

@[simp] lemma pointer_append (c : Context) (fs : List Finding) :
    (c.append fs).pointer = c.pointer := rfl

@[simp] lemma findings_collector_append (c : Context) (fs : List Finding) :
    (c.append fs).collector.findings = c.collector.findings ++ fs := rfl

@[simp] lemma append_nil (c : Context) : c.append [] = c := by
  simp [append, Collector.append]

@[simp] lemma append_append (c : Context) (fs gs : List Finding) :
    (c.append fs).append gs = c.append (fs ++ gs) := by
  simp [append, Collector.append]

@[simp] lemma leave_append_enter (c : Context) (segments : List String) (fs : List Finding) :
    ((c.enter segments).append fs).leave = c.append fs := rfl

end Context

/-- What a rule finds on a node that stands at a pointer, and on a literal of a node. -/
structure Examination where
  onSchema : Pointer → Nat → Node → List Finding
  onLiteral : Pointer → Nat → Node → Literal → List Finding

/-- A rule that never fails on a graph, and reports what an examination of the pointer, the node and
the literal finds. -/
structure Rule.Reports (g : Graph) (rule : Rule) (found : Examination) : Prop where
  onSchema : ∀ c place node, g.nodes[place]? = some node →
    (rule.onSchema g place node).run c = (.ok (), c.append (found.onSchema c.pointer place node))
  onLiteral : ∀ c place node segments value, g.nodes[place]? = some node →
    (segments, value) ∈ node.literals →
    (rule.onLiteral g place node value).run c
      = (.ok (), c.append (found.onLiteral c.pointer place node value))

namespace Rule.Reports

variable {g : Graph}

/-- A rule of schemas finds nothing on literals. -/
lemma ofSchema {name : String} {check : Graph → Nat → Node → Check Unit}
    {found : Pointer → Nat → Node → List Finding}
    (h : ∀ c place node, g.nodes[place]? = some node →
      (check g place node).run c = (.ok (), c.append (found c.pointer place node))) :
    Reports g ⟨name, .schema check⟩ ⟨found, fun _ _ _ _ => []⟩ where
  onSchema := h
  onLiteral c _ _ _ _ _ _ := by
    simp only [Context.append_nil]
    rfl

/-- A rule of literals finds nothing on schemas. -/
lemma ofLiteral {name : String} {check : Graph → Nat → Node → Literal → Check Unit}
    {found : Pointer → Nat → Node → Literal → List Finding}
    (h : ∀ c place node segments value, g.nodes[place]? = some node →
      (segments, value) ∈ node.literals →
      (check g place node value).run c = (.ok (), c.append (found c.pointer place node value))) :
    Reports g ⟨name, .literal check⟩ ⟨fun _ _ _ => [], found⟩ where
  onSchema c _ _ _ := by
    simp only [Context.append_nil]
    rfl
  onLiteral := h

end Rule.Reports

namespace Walk

/-- The state after findings, with another log. -/
def State.adding (s : State) (fs : List Finding) (log : List LogRecord) : State :=
  { s with context := s.context.append fs, log }

namespace Visit

lemma run_call {α : Type} (act : Check α) (s : State) :
    (call act).run s = ((act.run s.context).1, { s with context := (act.run s.context).2 }) := rfl

lemma run_within {α : Type} (segments : List String) (act : Visit α) (s : State) :
    (within segments act).run s
      = ((act.run { s with context := s.context.enter segments }).1,
        { (act.run { s with context := s.context.enter segments }).2 with
          context := (act.run { s with context := s.context.enter segments }).2.context.leave }) :=
  rfl

lemma run_along {α : Type} (key : NodeKey) (act : Visit α) (s : State) :
    (along key act).run s
      = ((act.run { s with path := key :: s.path }).1,
        { (act.run { s with path := key :: s.path }).2 with
          path := (act.run { s with path := key :: s.path }).2.path.erase key }) := rfl

/-- An act that does not fail from any state at a pointer and a path, and whose only effect besides
the log are findings. -/
def Reports (act : Visit Unit) (pointer : Pointer) (path : List NodeKey) (fs : List Finding) :
    Prop :=
  ∀ s : State, s.context.pointer = pointer → s.path = path →
    ∃ log, act.run s = (.ok (), s.adding fs log)

namespace Reports

variable {pointer : Pointer} {path : List NodeKey}

lemma pure : Reports (Pure.pure ()) pointer path [] :=
  fun s _ _ => ⟨s.log, by simp only [State.adding, Context.append_nil]; rfl⟩

lemma note (message : String) : Reports (note message) pointer path [] :=
  fun s _ _ => ⟨s.log ++ [.debug logger message],
    by simp only [State.adding, Context.append_nil]; rfl⟩

lemma bind {first second : Visit Unit} {fs gs : List Finding} (h : Reports first pointer path fs)
    (h' : Reports second pointer path gs) :
    Reports (do first; second) pointer path (fs ++ gs) := by
  intro s hpointer hpath
  obtain ⟨log, hfirst⟩ := h s hpointer hpath
  obtain ⟨log', hsecond⟩ := h' (s.adding fs log) hpointer hpath
  refine ⟨log', ?_⟩
  have hrun : (do first; second : Visit Unit).run s = second.run (s.adding fs log) := by
    change StateT.bind first.run (ExceptT.bindCont fun _ => second) s = _
    simp only [StateT.bind, hfirst]
    rfl
  rw [hrun, hsecond]
  simp [State.adding]

lemma get {act : State → Visit Unit} {fs : List Finding}
    (h : ∀ s, s.context.pointer = pointer → s.path = path → Reports (act s) pointer path fs) :
    Reports (do let s ← MonadState.get; act s) pointer path fs :=
  fun s hpointer hpath => h s hpointer hpath s hpointer hpath

lemma forM {α : Type} {xs : List α} {act : α → Visit Unit} {fs : α → List Finding}
    (h : ∀ x ∈ xs, Reports (act x) pointer path (fs x)) :
    Reports (xs.forM act) pointer path (xs.flatMap fs) := by
  induction xs with
  | nil => exact pure
  | cons x xs ih =>
    rw [List.flatMap_cons]
    exact bind (h x (List.mem_cons_self ..)) (ih fun y hy => h y (List.mem_cons_of_mem _ hy))

lemma within {segments : List String} {act : Visit Unit} {fs : List Finding}
    (h : Reports act (pointer.join segments) path fs) :
    Reports (within segments act) pointer path fs := by
  intro s hpointer hpath
  obtain ⟨log, hact⟩ := h { s with context := s.context.enter segments }
    (by simp [hpointer]) hpath
  refine ⟨log, ?_⟩
  rw [run_within, hact]
  rfl

lemma along {key : NodeKey} {act : Visit Unit} {fs : List Finding}
    (h : Reports act pointer (key :: path) fs) : Reports (along key act) pointer path fs := by
  intro s hpointer hpath
  obtain ⟨log, hact⟩ := h { s with path := key :: s.path } hpointer (by simp [hpath])
  refine ⟨log, ?_⟩
  rw [run_along, hact]
  simp [State.adding]

lemma call {act : Check Unit} {fs : List Finding}
    (h : ∀ c : Context, c.pointer = pointer → act.run c = (.ok (), c.append fs)) :
    Reports (call act) pointer path fs := by
  intro s hpointer _
  refine ⟨s.log, ?_⟩
  rw [run_call, h s.context hpointer]
  rfl

end Reports

end Visit

/-! ### What a walk reports at one node -/

/-- The findings at a stop: those of the rules of schemas on the node, and then for each literal
those of the rules of literals, the rules always in the order of their set. -/
def findingsAt (rules : RuleSet) (found : Rule → Examination) (stop : Stop) : List Finding :=
  ((rules.rulesFor .schema).flatMap fun rule =>
      (found rule).onSchema stop.pointer stop.place stop.node)
    ++ stop.node.literals.flatMap fun (segments, value) =>
      (rules.rulesFor .literal).flatMap fun rule =>
        (found rule).onLiteral (stop.pointer.join segments) stop.place stop.node value

variable {g : Graph} {rules : RuleSet} {found : Rule → Examination} {place : Nat} {node : Node}

lemma runSchemaRules_reports (hrules : ∀ rule ∈ rules.rules, rule.Reports g (found rule))
    (hnode : g.nodes[place]? = some node) (pointer : Pointer) (path : List NodeKey) :
    (runSchemaRules rules g place node).Reports pointer path
      ((rules.rulesFor .schema).flatMap fun rule => (found rule).onSchema pointer place node) := by
  refine Visit.Reports.forM fun rule hrule => Visit.Reports.call fun c hc => ?_
  rw [(hrules rule (List.mem_of_mem_filter hrule)).onSchema c place node hnode, hc]

lemma runLiteralRules_reports (hrules : ∀ rule ∈ rules.rules, rule.Reports g (found rule))
    (hnode : g.nodes[place]? = some node) (pointer : Pointer) (path : List NodeKey) :
    (runLiteralRules rules g place node).Reports pointer path
      (node.literals.flatMap fun (segments, value) => (rules.rulesFor .literal).flatMap fun rule =>
        (found rule).onLiteral (pointer.join segments) place node value) := by
  refine Visit.Reports.forM fun (segments, value) hvalue => Visit.Reports.within ?_
  refine Visit.Reports.forM fun rule hrule => Visit.Reports.call fun c hc => ?_
  rw [(hrules rule (List.mem_of_mem_filter hrule)).onLiteral c place node segments value hnode
    hvalue, hc]

/-- A node of a well-formed graph has no defect. -/
lemma defects_eq_nil (hg : g.IsWellFormed) (hnode : node ∈ g.nodes) : defects g node = [] :=
  defects_eq_nil_iff.mpr (not_isMalformed hg hnode)

lemma checkShape_reports (hg : g.IsWellFormed) (hnode : node ∈ g.nodes) (pointer : Pointer)
    (path : List NodeKey) : (checkShape g node).Reports pointer path [] := by
  simp only [checkShape, defects_eq_nil hg hnode, List.head?_nil]
  exact Visit.Reports.pure

end Walk

end ApiLint
