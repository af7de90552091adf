import ApiLint.Proofs.Walk.Paths

/-!
# A walk is a sequence of calls

What a rule can do is up to the rule: it may report, look at what was reported before, and fail. But
as long as it deals with a context through its pointer and its collector alone, a walk is nothing
but calls of the rules at one stop after the other, up to the first failure or the first malformed
node. Where the stops are does not depend on the rules. In a well-formed graph no node is malformed.
-/

namespace ApiLint

/-- Acts on a collector, which a failure leaves as it is at that moment. -/
abbrev Collecting := ExceptT Fault (StateM Collector)

/-- Of two acts in a row, the second sees the state that the first leaves, unless the first fails.
-/
lemma run_bind_except {ε σ α β : Type} (first : ExceptT ε (StateM σ) α)
    (second : α → ExceptT ε (StateM σ) β) (s : σ) :
    (first >>= second).run s = match first.run s with
      | (.ok a, s') => (second a).run s'
      | (.error e, s') => (.error e, s') := by
  simp only [ExceptT.run, bind, ExceptT.bind, ExceptT.mk, StateT.bind, ExceptT.bindCont]
  cases first s with
  | mk outcome s' => cases outcome <;> rfl

namespace Check

/-- What an act does to a collector at a pointer. -/
def collecting (act : Check Unit) (pointer : Pointer) : Collecting Unit :=
  ExceptT.mk fun collector =>
    let (outcome, context) := act.run ⟨pointer, [], collector⟩
    (outcome, context.collector)

/-- An act to which a context is its pointer and its collector, and which changes the collector
alone. -/
def IsLocal (act : Check Unit) : Prop :=
  ∀ c : Context, act.run c
    = (((act.collecting c.pointer).run c.collector).1,
      { c with collector := ((act.collecting c.pointer).run c.collector).2 })

end Check

/-- A rule whose calls on a graph are local. -/
structure Rule.IsLocal (g : Graph) (rule : Rule) : Prop where
  onSchema : ∀ place node, g.nodes[place]? = some node → (rule.onSchema g place node).IsLocal
  onLiteral : ∀ place node segments value, g.nodes[place]? = some node →
    (segments, value) ∈ node.literals → (rule.onLiteral g place node value).IsLocal

/-- A rule whose calls on those nodes of a graph that have a property are local. -/
structure Rule.IsLocalOn (g : Graph) (P : Node → Prop) (rule : Rule) : Prop where
  onSchema : ∀ place node, g.nodes[place]? = some node → P node →
    (rule.onSchema g place node).IsLocal
  onLiteral : ∀ place node segments value, g.nodes[place]? = some node → P node →
    (segments, value) ∈ node.literals → (rule.onLiteral g place node value).IsLocal

lemma Rule.IsLocal.on {g : Graph} {rule : Rule} (h : rule.IsLocal g) (P : Node → Prop) :
    rule.IsLocalOn g P :=
  ⟨fun place node hnode _ => h.onSchema place node hnode,
    fun place node segments value hnode _ => h.onLiteral place node segments value hnode⟩

/-- A rule that only reports is local. -/
lemma Rule.Reports.isLocal {g : Graph} {rule : Rule} {found : Examination}
    (h : rule.Reports g found) : rule.IsLocal g := by
  have hlocal : ∀ (act : Check Unit) (fs : Pointer → List Finding),
      (∀ c, act.run c = (.ok (), c.append (fs c.pointer))) → act.IsLocal := by
    intro act fs hact c
    have hcollecting : (act.collecting c.pointer).run c.collector
        = (.ok (), (Context.append ⟨c.pointer, [], c.collector⟩ (fs c.pointer)).collector) := by
      change ((act.run _).1, (act.run _).2.collector) = _
      rw [hact]
      rfl
    rw [hact, hcollecting]
    rfl
  constructor
  · intro place node hnode
    exact hlocal _ (found.onSchema · place node) fun c => h.onSchema c place node hnode
  · intro place node segments value hnode hvalue
    exact hlocal _ (found.onLiteral · place node value) fun c =>
      h.onLiteral c place node segments value hnode hvalue

namespace Walk

/-- The calls of the rules at a stop: those of schemas on the node, and then for its default, its
example and the members of its enumeration those of literals, always in the order of the set. -/
def callsAt (rules : RuleSet) (g : Graph) (stop : Stop) : Collecting Unit := do
  (rules.rulesFor .schema).forM fun rule =>
    (rule.onSchema g stop.place stop.node).collecting stop.pointer
  stop.node.literals.forM fun (segments, value) =>
    (rules.rulesFor .literal).forM fun rule =>
      (rule.onLiteral g stop.place stop.node value).collecting (stop.pointer.join segments)

/-- What is done at a stop: a malformed node is a fault at its first defect, and on any other node
the rules are called. -/
def examineAt (rules : RuleSet) (g : Graph) (stop : Stop) : Collecting Unit :=
  match (defects g stop.node).head? with
  | some (segments, defect) => throw (defect.faultAt (stop.pointer.join segments))
  | none => callsAt rules g stop

namespace Visit

/-- An act that does to the collector what another act does, from any state at a pointer and a path,
and nothing else besides the log. -/
def Collects (act : Visit Unit) (pointer : Pointer) (path : List NodeKey)
    (collect : Collecting Unit) : Prop :=
  ∀ s : State, s.context.pointer = pointer → s.path = path →
    ∃ log, act.run s = ((collect.run s.context.collector).1,
      { s with context.collector := (collect.run s.context.collector).2, log })

namespace Collects

variable {pointer : Pointer} {path : List NodeKey}

lemma pure : Collects (Pure.pure ()) pointer path (Pure.pure ()) := by
  intro s _ _
  exact ⟨s.log, rfl⟩

lemma throw (fault : Fault) :
    Collects (MonadExcept.throw fault) pointer path (MonadExcept.throw fault) := by
  intro s _ _
  exact ⟨s.log, rfl⟩

lemma note (message : String) : Collects (note message) pointer path (Pure.pure ()) := by
  intro s _ _
  exact ⟨s.log ++ [.debug logger message], rfl⟩

lemma bind {first second : Visit Unit} {collect collect' : Collecting Unit}
    (h : Collects first pointer path collect) (h' : Collects second pointer path collect') :
    Collects (do first; second) pointer path (do collect; collect') := by
  intro s hpointer hpath
  obtain ⟨log, hfirst⟩ := h s hpointer hpath
  rw [run_bind_except, run_bind_except, hfirst]
  cases hrun : collect.run s.context.collector with
  | mk outcome collector =>
    cases outcome with
    | error fault => exact ⟨log, rfl⟩
    | ok value =>
      obtain ⟨log', hsecond⟩ := h' { s with context.collector := collector, log } hpointer hpath
      exact ⟨log', hsecond⟩

/-- After a failure it does not matter what would come next. -/
lemma bind_throw {first second : Visit Unit} {fault : Fault}
    (h : Collects first pointer path (MonadExcept.throw fault)) (collect : Collecting Unit) :
    Collects (do first; second) pointer path (do MonadExcept.throw fault; collect) := by
  intro s hpointer hpath
  obtain ⟨log, hfirst⟩ := h s hpointer hpath
  refine ⟨log, ?_⟩
  rw [run_bind_except, run_bind_except, hfirst]
  rfl

lemma get {act : State → Visit Unit} {collect : Collecting Unit}
    (h : ∀ s, s.context.pointer = pointer → s.path = path →
      Collects (act s) pointer path collect) :
    Collects (do let s ← MonadState.get; act s) pointer path collect := by
  intro s hpointer hpath
  exact h s hpointer hpath s hpointer hpath

lemma forM {α : Type} {xs : List α} {act : α → Visit Unit} {collect : α → Collecting Unit}
    (h : ∀ x ∈ xs, Collects (act x) pointer path (collect x)) :
    Collects (xs.forM act) pointer path (xs.forM collect) := by
  induction xs with
  | nil => exact pure
  | cons x xs ih =>
    change Collects (do act x; xs.forM act) pointer path (do collect x; xs.forM collect)
    exact bind (h x (List.mem_cons_self ..)) (ih fun y hy => h y (List.mem_cons_of_mem _ hy))

lemma within {segments : List String} {act : Visit Unit} {collect : Collecting Unit}
    (h : Collects act (pointer.join segments) path collect) :
    Collects (within segments act) pointer path collect := by
  intro s hpointer hpath
  obtain ⟨log, hact⟩ := h { s with context := s.context.enter segments } (by simp [hpointer]) hpath
  refine ⟨log, ?_⟩
  rw [run_within, hact]
  rfl

lemma along {key : NodeKey} {act : Visit Unit} {collect : Collecting Unit}
    (h : Collects act pointer (key :: path) collect) :
    Collects (along key act) pointer path collect := by
  intro s hpointer hpath
  obtain ⟨log, hact⟩ := h { s with path := key :: s.path } hpointer (by simp [hpath])
  refine ⟨log, ?_⟩
  rw [run_along, hact]
  simp

lemma call {act : Check Unit} (h : act.IsLocal) :
    Collects (call act) pointer path (act.collecting pointer) := by
  intro s hpointer _
  refine ⟨s.log, ?_⟩
  rw [run_call, h s.context, hpointer]

end Collects

end Visit

/-! ### Visits -/

variable {g : Graph} {walker : Walker}

lemma runRules_collects {rules : RuleSet} {P : Node → Prop} {place : Nat} {node : Node}
    (hrules : ∀ rule ∈ rules.rules, rule.IsLocalOn g P) (hnode : g.nodes[place]? = some node)
    (hP : P node) (pointer : Pointer) (path : List NodeKey) :
    Visit.Collects (do runSchemaRules rules g place node; runLiteralRules rules g place node)
      pointer path (callsAt rules g ⟨pointer, place, node⟩) := by
  have hlocal : ∀ kind, ∀ rule ∈ rules.rulesFor kind, rule.IsLocalOn g P := fun kind rule hrule =>
    hrules rule (List.mem_of_mem_filter hrule)
  apply Visit.Collects.bind
  · apply Visit.Collects.forM
    intro rule hrule
    exact Visit.Collects.call ((hlocal _ rule hrule).onSchema place node hnode hP)
  · apply Visit.Collects.forM
    rintro ⟨segments, value⟩ hvalue
    apply Visit.Collects.within
    apply Visit.Collects.forM
    intro rule hrule
    exact Visit.Collects.call
      ((hlocal _ rule hrule).onLiteral place node segments value hnode hP hvalue)

/-- A malformed node is a fault before anything else is done at it. -/
lemma checkShape_collects {node : Node} {segments : List String} {defect : GraphDefect}
    (h : (defects g node).head? = some (segments, defect)) (pointer : Pointer)
    (path : List NodeKey) :
    (checkShape g node).Collects pointer path (throw (defect.faultAt (pointer.join segments))) := by
  simp only [checkShape, h]
  apply Visit.Collects.get
  rintro s rfl -
  exact Visit.Collects.throw _

lemma forM_flatMap {m : Type → Type} [Monad m] [LawfulMonad m] {α β : Type} (xs : List α)
    (f : α → List β) (act : β → m Unit) :
    (xs.flatMap f).forM act = xs.forM fun x => (f x).forM act := by
  simp only [List.forM_eq_forM]
  induction xs with
  | nil => simp
  | cons x xs ih => simp [ih]

lemma forM_congr {m : Type → Type} [Monad m] {α : Type} {xs : List α} {act act' : α → m Unit}
    (h : ∀ x ∈ xs, act x = act' x) : xs.forM act = xs.forM act' := by
  induction xs with
  | nil => rfl
  | cons x xs ih =>
    obtain ⟨hx, hxs⟩ := List.forall_mem_cons.mp h
    change (do act x; xs.forM act) = (do act' x; xs.forM act')
    rw [hx, ih hxs]

/-- What is done along a listing that does not start with a node left out: what is done at the node,
and then what is done along the listings of its children. -/
lemma forM_listing_cons {above : List NodeKey} {pointer : Pointer} {child : Child} {stop : Stop}
    {depth : Nat} (hat : Stop.at? g pointer child = some stop) (hkey : stop.key ∉ above)
    (hcut : isCut walker above stop.node = false) (act : Stop → Collecting Unit) :
    ((listing walker g (depth + 1) above pointer child).forM fun e => act e.2)
      = (do
        act stop
        stop.node.children.forM fun (edge, next) =>
          (listing walker g depth (stop.key :: above) (pointer.join edge.segments) next).forM
            fun e => act e.2) := by
  rw [listing_eq_cons hat hkey hcut]
  conv_rhs => rw [← List.zipIdx_map_fst 0 stop.node.children]
  simp only [List.forM_eq_forM, List.forM_cons, List.forM_map]
  rw [← List.forM_eq_forM, forM_flatMap]
  simp only [List.forM_eq_forM, List.forM_map]

/-- What is done at a node that is not left out: its examination, and then what is done at its
children unless the examination fails. -/
lemma visitNode_collects {rules : RuleSet}
    (hrules : ∀ rule ∈ rules.rules, rule.IsLocalOn g fun node => ¬IsMalformed g node)
    {pointer : Pointer} {path : List NodeKey} {place : Nat} {node : Node}
    (hnode : g.nodes[place]? = some node) {children : Visit Unit} {collect : Collecting Unit}
    (hchildren : ¬IsMalformed g node →
      children.Collects pointer (Graph.keyOf place node :: path) collect) :
    Visit.Collects
      (do
        checkShape g node
        Visit.along (Graph.keyOf place node) do
          runSchemaRules rules g place node
          runLiteralRules rules g place node
          children)
      pointer path
      (do
        examineAt rules g ⟨pointer, place, node⟩
        collect) := by
  cases hdefect : (defects g node).head? with
  | some found =>
    obtain ⟨segments, defect⟩ := found
    simp only [examineAt, hdefect]
    exact (checkShape_collects hdefect pointer path).bind_throw _
  | none =>
    have hgood : ¬IsMalformed g node :=
      defects_eq_nil_iff.mp (List.head?_eq_none_iff.mp hdefect)
    have hcalls := runRules_collects hrules hnode hgood pointer (Graph.keyOf place node :: path)
    have hrun := Visit.Collects.along (hcalls.bind (hchildren hgood))
    simpa only [checkShape, examineAt, hdefect, pure_bind, bind_assoc] using hrun

/-- What is done at a node that is on the path already: nothing, unless the node cannot be named. -/
def comeBack (node : Node) : Collecting Unit :=
  match node.describe with
  | .ok _ => pure ()
  | .error e => throw (.number e)

/-- The visit of a child that is no schema fails at once. -/
lemma visitStep_collects_of_nonSchema {below : Child → Visit Unit} {pointer : Pointer}
    {path : List NodeKey} {child : Child} {raw : Raw} (h : g.resolve child = .error raw) :
    (visitStep walker g below child).Collects pointer path
      (throw (.invalidGraph ⟨.root raw.kindName, some pointer⟩)) := by
  apply Visit.Collects.get
  rintro s rfl -
  simp only [h]
  exact .throw _

section Steps

variable {below : Child → Visit Unit} {pointer : Pointer} {path : List NodeKey} {child : Child}
  {place : Nat} {node : Node} (hresolve : g.resolve child = .ok (place, node))
include hresolve

lemma visitStep_collects_of_mem (hkey : Graph.keyOf place node ∈ path) :
    (visitStep walker g below child).Collects pointer path (comeBack node) := by
  apply Visit.Collects.get
  rintro s - rfl
  simp only [hresolve, if_pos hkey, noteCycle, comeBack]
  cases node.describe with
  | ok name => exact .note _
  | error e => exact .throw _

lemma visitStep_collects_of_isCut (hkey : Graph.keyOf place node ∉ path)
    (hcut : isCut walker path node = true) :
    (visitStep walker g below child).Collects pointer path (pure ()) := by
  apply Visit.Collects.get
  rintro s - rfl
  simp only [hresolve, if_neg hkey, if_pos hcut]
  exact .pure

lemma visitStep_collects
    (hrules : ∀ rule ∈ walker.rules.rules, rule.IsLocalOn g fun node => ¬IsMalformed g node)
    (hkey : Graph.keyOf place node ∉ path) (hcut : isCut walker path node = false)
    {collect : Collecting Unit}
    (hchildren : ¬IsMalformed g node →
      Visit.Collects
        (node.children.forM fun (edge, next) => Visit.within edge.segments (below next))
        pointer (Graph.keyOf place node :: path) collect) :
    (visitStep walker g below child).Collects pointer path
      (do
        examineAt walker.rules g ⟨pointer, place, node⟩
        collect) := by
  apply Visit.Collects.get
  rintro s - rfl
  simp only [hresolve, if_neg hkey, hcut]
  exact visitNode_collects hrules (Graph.resolve_eq_ok_iff.mp hresolve).2 hchildren

end Steps

/-- Whatever stands for visits nested deeper than there are keys, and however malformed the graph: a
visit of a schema does at the ends of the listed paths, one after the other, what is to be done
there. -/
lemma visitOr_examines
    (hrules : ∀ rule ∈ walker.rules.rules, rule.IsLocalOn g fun node => ¬IsMalformed g node)
    (deeper : Child → Visit Unit) {depth : Nat} {above : List NodeKey} {pointer : Pointer}
    {child : Child} (hdepth : (g.keys \ above.toFinset).card < depth)
    (hchild : ∃ result, g.resolve child = .ok result) (hnamed : g.NamesRepeats above child) :
    (visitOr walker g deeper depth child).Collects pointer above
      ((listing walker g depth above pointer child).forM fun e =>
        examineAt walker.rules g e.2) := by
  -- Each visit puts one more key on the path, so the keys that are left run out before the depth
  -- does, and `deeper` is never asked.
  induction depth generalizing above pointer child with
  | zero => omega
  | succ depth ih =>
    obtain ⟨⟨place, node⟩, hresolve⟩ := hchild
    have hat : Stop.at? g pointer child = some ⟨pointer, place, node⟩ :=
      Stop.at?_of_resolve hresolve
    by_cases hkey : Graph.keyOf place node ∈ above
    · obtain ⟨name, hname⟩ := hnamed.describe hresolve hkey
      have hback : (visitOr walker g deeper (depth + 1) child).Collects pointer above
          (comeBack node) := visitStep_collects_of_mem hresolve hkey
      rw [comeBack, hname] at hback
      rwa [listing_eq_nil (by simp [hat, Stop.key, hkey])]
    cases hcut : isCut walker above node with
    | true =>
      rw [listing_eq_nil (by simp [hat, hcut])]
      exact visitStep_collects_of_isCut hresolve hkey hcut
    | false =>
      rw [forM_listing_cons hat hkey hcut]
      refine visitStep_collects hresolve hrules hkey hcut fun hgood => ?_
      apply Visit.Collects.forM
      rintro ⟨edge, next⟩ hnext
      apply Visit.Collects.within
      apply ih
      · exact card_sdiff_cons_lt (key_mem_keys hat) hkey hdepth
      · exact exists_of_mem_children hgood hnext
      · exact hnamed.below hresolve hkey hnext

/-- In a well-formed graph, a visit makes the calls at the ends of the listed paths. -/
lemma visitOr_collects (hg : g.IsWellFormed) (hrules : ∀ rule ∈ walker.rules.rules, rule.IsLocal g)
    (deeper : Child → Visit Unit) {depth : Nat} {above : List NodeKey} {pointer : Pointer}
    {child : Child} (hdepth : (g.keys \ above.toFinset).card < depth)
    (hchild : ∃ result, g.resolve child = .ok result) (hnamed : g.NamesRepeats above child) :
    (visitOr walker g deeper depth child).Collects pointer above
      ((listing walker g depth above pointer child).forM fun e => callsAt walker.rules g e.2) := by
  have hcalls : ((listing walker g depth above pointer child).forM fun e =>
        examineAt walker.rules g e.2)
      = (listing walker g depth above pointer child).forM fun e => callsAt walker.rules g e.2 := by
    refine forM_congr fun e he => ?_
    have hnode := Array.mem_of_getElem? (getElem?_of_mem_listing he)
    simp only [examineAt, defects_eq_nil hg hnode, List.head?_nil]
  rw [← hcalls]
  exact visitOr_examines (fun rule hrule => (hrules rule hrule).on _) deeper hdepth hchild hnamed

end Walk

end ApiLint
