import ApiLint.Proofs.Context
import ApiLint.Proofs.Rule.Builtin
import ApiLint.Proofs.Walk.Calls

/-!
# Visits restore the state of a walk

A visit goes below pointers and puts keys on the path at many places, and a failure may leave it
from any of them. Whatever the rules report, enter and fail at, the path and the entered pointers
are afterwards as they were before, and new findings stand behind the old ones. The keys on the path
may as well be kept in a set: a visit only adds a key that is not there, so that taking the key out
takes nothing from the visits above.
-/

namespace ApiLint

/-! ### Acts of rules -/

/-- What a rule may do: look at the context, report, act below the current pointer, fail, and go on
after a failure. -/
inductive Check.IsWellNested : {α : Type} → Check α → Prop
  | pure {α : Type} (a : α) : IsWellNested (Pure.pure a : Check α)
  | throw {α : Type} (fault : Fault) : IsWellNested (MonadExcept.throw fault : Check α)
  | look : IsWellNested (MonadState.get : Check Context)
  | report (rule message : String) (pointer : Option Pointer) (kind : FindingKind) :
    IsWellNested (Check.report rule message pointer kind)
  | extend (submissions : List Submission) : IsWellNested (Check.extend submissions)
  | within {α : Type} {act : Check α} (segments : List String) (inner : IsWellNested act) :
    IsWellNested (Check.within segments act)
  | bind {α β : Type} {first : Check α} {second : α → Check β} (start : IsWellNested first)
    (rest : ∀ a, IsWellNested (second a)) : IsWellNested (first >>= second)
  | recover {α : Type} {act : Check α} {handler : Fault → Check α} (start : IsWellNested act)
    (rest : ∀ fault, IsWellNested (handler fault)) : IsWellNested (tryCatch act handler)

/-- A rule whose calls do nothing else. -/
structure Rule.IsWellNested (rule : Rule) : Prop where
  onSchema : ∀ g place node, (rule.onSchema g place node).IsWellNested
  onLiteral : ∀ g place node value, (rule.onLiteral g place node value).IsWellNested

namespace Check

/-- What was taken before a submission that is no finding stays. -/
lemma run_extend_snd (c : Context) (submissions : List Submission) :
    ((Check.extend submissions).run c).2
      = { c with collector := (c.collector.extend submissions).1 } := by
  have hget : (get : Check Context).run c = (.ok c, c) := rfl
  rw [extend, run_bind_except, hget]
  dsimp only
  cases c.collector.extend submissions with
  | mk collector refused => cases refused <;> rfl

lemma run_tryCatch {α : Type} (act : Check α) (handler : Fault → Check α) (c : Context) :
    (tryCatch act handler).run c = match act.run c with
      | (.ok a, c') => (.ok a, c')
      | (.error fault, c') => (handler fault).run c' := by
  simp only [ExceptT.run, tryCatch, tryCatchThe, MonadExceptOf.tryCatch, ExceptT.tryCatch,
    ExceptT.mk, bind, StateT.bind]
  cases act c with
  | mk outcome c' => cases outcome <;> rfl

namespace IsWellNested

/-- What is done to a context is a balanced run of operations, whether or not the act fails. -/
lemma exists_perform {α : Type} {act : Check α} (h : act.IsWellNested) (c : Context) :
    ∃ acts, ContextAct.IsBalanced acts ∧ (act.run c).2 = c.perform acts := by
  induction h generalizing c with
  | pure a => exact ⟨[], ContextAct.isBalanced_nil, rfl⟩
  | throw fault => exact ⟨[], ContextAct.isBalanced_nil, rfl⟩
  | look => exact ⟨[], ContextAct.isBalanced_nil, rfl⟩
  | report rule message pointer kind => exact ⟨_, ContextAct.isBalanced_report .., rfl⟩
  | extend submissions => exact ⟨_, ContextAct.isBalanced_extend submissions, run_extend_snd c _⟩
  | within segments _ ih =>
    obtain ⟨acts, hacts, hrun⟩ := ih (c.enter segments)
    refine ⟨_, hacts.within segments, ?_⟩
    simp only [List.cons_append, Context.perform_cons, Context.perform_append]
    exact congrArg Context.leave hrun
  | bind _ _ ih ih' =>
    obtain ⟨acts, hacts, hfirst⟩ := ih c
    rw [run_bind_except]
    split
    · next a c' hrun =>
      rw [hrun] at hfirst
      obtain ⟨acts', hacts', hsecond⟩ := ih' a c'
      refine ⟨_, hacts.append hacts', ?_⟩
      rw [hsecond, Context.perform_append, ← hfirst]
    · next fault c' hrun =>
      rw [hrun] at hfirst
      exact ⟨acts, hacts, hfirst⟩
  | recover _ _ ih ih' =>
    obtain ⟨acts, hacts, hfirst⟩ := ih c
    rw [run_tryCatch]
    split
    · next a c' hrun =>
      rw [hrun] at hfirst
      exact ⟨acts, hacts, hfirst⟩
    · next fault c' hrun =>
      rw [hrun] at hfirst
      obtain ⟨acts', hacts', hsecond⟩ := ih' fault c'
      refine ⟨_, hacts.append hacts', ?_⟩
      rw [hsecond, Context.perform_append, ← hfirst]

lemma extendBy (examine : Pointer → Except Fault (List Finding)) :
    IsWellNested (Check.extendBy examine) := by
  refine .bind .look fun c => ?_
  split
  · exact .extend _
  · exact .throw _

end IsWellNested

end Check

/-- The rules of the library report and fail, and do nothing else. -/
lemma Rule.isWellNested_of_mem_builtin {rule : Rule} (h : rule ∈ Rule.builtin) :
    rule.IsWellNested := by
  have hdiscriminated : ∀ name kind, (Rule.discriminated name kind).IsWellNested := by
    intro name kind
    exact ⟨fun g _ node => .extendBy (Discrimination.findings g node kind ·),
      fun _ _ _ _ => .pure ()⟩
  -- No rule of the library enters a pointer itself; the visits do that around it.
  rcases Rule.mem_builtin_iff.mp h with rfl | rfl | rfl
  · exact ⟨fun _ _ _ => .pure (),
      fun g place _ value => .extendBy (Matching.mismatches g (.node place) · value)⟩
  · exact hdiscriminated _ _
  · exact hdiscriminated _ _

open Walk

namespace Walk

/-! ### What the parts of a visit keep -/

/-- A relation between the states before and after an act that passes from the parts of a visit to
what is put together of them. -/
structure IsFrame (R : State → State → Prop) : Prop where
  refl : ∀ s, R s s
  trans : ∀ {s s' s''}, R s s' → R s' s'' → R s s''
  log : ∀ s log, R s { s with log }
  within : ∀ {s s'} segments, R { s with context := s.context.enter segments } s' →
    R s { s' with context := s'.context.leave }
  along : ∀ {s s'} key, R { s with path := key :: s.path } s' →
    R s { s' with path := s'.path.erase key }

/-- An act with a relation between the states before and after it, also where it fails. -/
def Visit.Keeps {α : Type} (R : State → State → Prop) (act : Visit α) : Prop :=
  ∀ s, R s (act.run s).2

namespace Visit.Keeps

variable {R : State → State → Prop}

lemma get {α : Type} {act : State → Visit α} (h : ∀ s, Keeps R (act s)) :
    Keeps R (do let s ← MonadState.get; act s) := fun s => h s s

variable (hR : IsFrame R)
include hR

lemma pure {α : Type} (a : α) : Keeps R (Pure.pure a : Visit α) := hR.refl

lemma throw {α : Type} (fault : Fault) : Keeps R (MonadExcept.throw fault : Visit α) := hR.refl

lemma note (message : String) : Keeps R (note message) := fun s =>
  hR.log s (s.log ++ [LogRecord.debug logger message])

lemma bind {α β : Type} {first : Visit α} {second : α → Visit β} (h : Keeps R first)
    (h' : ∀ a, Keeps R (second a)) : Keeps R (first >>= second) := by
  intro s
  have hfirst := h s
  rw [run_bind_except]
  split
  · next a s' hrun =>
    rw [hrun] at hfirst
    exact hR.trans hfirst (h' a s')
  · next fault s' hrun =>
    rw [hrun] at hfirst
    exact hfirst

lemma forM {α : Type} {xs : List α} {act : α → Visit Unit} (h : ∀ x ∈ xs, Keeps R (act x)) :
    Keeps R (xs.forM act) := by
  induction xs with
  | nil => exact pure hR ()
  | cons x xs ih =>
    obtain ⟨hx, hxs⟩ := List.forall_mem_cons.mp h
    exact bind hR hx fun _ => ih hxs

lemma within {α : Type} {act : Visit α} (h : Keeps R act) (segments : List String) :
    Keeps R (within segments act) := fun _ => hR.within segments (h _)

lemma along {α : Type} {act : Visit α} (h : Keeps R act) (key : NodeKey) :
    Keeps R (along key act) := fun _ => hR.along key (h _)

end Visit.Keeps

variable {walker : Walker} {g : Graph} {R : State → State → Prop}

/-- Whether the calls of rules on a graph have a relation between the states before and after. -/
def CallsKeep (rules : RuleSet) (g : Graph) (R : State → State → Prop) : Prop :=
  ∀ rule ∈ rules.rules, (∀ place node, (Visit.call (rule.onSchema g place node)).Keeps R)
    ∧ ∀ place node value, (Visit.call (rule.onLiteral g place node value)).Keeps R

lemma checkShape_keeps (hR : IsFrame R) (node : Node) : (checkShape g node).Keeps R := by
  rw [checkShape]
  split
  · exact .pure hR ()
  · exact .get fun _ => .throw hR _

lemma runSchemaRules_keeps (hR : IsFrame R) {rules : RuleSet} (hcalls : CallsKeep rules g R)
    (place : Nat) (node : Node) : (runSchemaRules rules g place node).Keeps R :=
  .forM hR fun rule hrule => (hcalls rule (List.mem_of_mem_filter hrule)).1 place node

lemma runLiteralRules_keeps (hR : IsFrame R) {rules : RuleSet} (hcalls : CallsKeep rules g R)
    (place : Nat) (node : Node) : (runLiteralRules rules g place node).Keeps R := by
  apply Visit.Keeps.forM hR
  rintro ⟨segments, value⟩ -
  apply Visit.Keeps.within hR
  exact .forM hR fun rule hrule => (hcalls rule (List.mem_of_mem_filter hrule)).2 place node value

lemma noteCycle_keeps (hR : IsFrame R) (node : Node) (pointer : Pointer) :
    (noteCycle node pointer).Keeps R := by
  rw [noteCycle]
  split
  · exact .note hR _
  · exact .throw hR _

lemma visitStep_keeps (hR : IsFrame R) (hcalls : CallsKeep walker.rules g R)
    {below : Child → Visit Unit} (hbelow : ∀ child, (below child).Keeps R) (child : Child) :
    (visitStep walker g below child).Keeps R := by
  refine .get fun _ => ?_
  dsimp only
  split
  · exact .throw hR _
  · next place node _ =>
    split
    · exact noteCycle_keeps hR node _
    · split
      · exact .pure hR ()
      · refine .bind hR (checkShape_keeps hR node) fun _ => .along hR ?_ _
        refine .bind hR (runSchemaRules_keeps hR hcalls place node) fun _ => ?_
        refine .bind hR (runLiteralRules_keeps hR hcalls place node) fun _ => ?_
        exact .forM hR fun next _ => .within hR (hbelow next.2) _

lemma visitOr_keeps (hR : IsFrame R) (hcalls : CallsKeep walker.rules g R)
    {deeper : Child → Visit Unit} (hdeeper : ∀ child, (deeper child).Keeps R) (depth : Nat) :
    ∀ child, (visitOr walker g deeper depth child).Keeps R := by
  induction depth with
  | zero => exact hdeeper
  | succ depth ih => exact visitStep_keeps hR hcalls ih

/-! ### The path -/

/-- The path is the same afterwards. -/
def SamePath (s s' : State) : Prop := s'.path = s.path

lemma isFrame_samePath : IsFrame SamePath where
  refl _ := rfl
  trans h h' := Eq.trans h' h
  log _ _ := rfl
  within _ h := h
  along {s s'} key h := by
    have hpath : s'.path = key :: s.path := h
    change s'.path.erase key = s.path
    rw [hpath, List.erase_cons_head]

/-- A rule sees nothing of the path. -/
lemma callsKeep_samePath (rules : RuleSet) (g : Graph) : CallsKeep rules g SamePath :=
  fun _ _ => ⟨fun _ _ _ => rfl, fun _ _ _ _ => rfl⟩

/-! ### The context -/

/-- The path is the same afterwards, and what was done to the context is a balanced run of
operations. -/
structure Restored (s s' : State) : Prop where
  path : s'.path = s.path
  context : ∃ acts, ContextAct.IsBalanced acts ∧ s'.context = s.context.perform acts

lemma isFrame_restored : IsFrame Restored where
  refl _ := ⟨rfl, [], ContextAct.isBalanced_nil, rfl⟩
  trans := by
    rintro s s' s'' ⟨hpath, acts, hacts, hcontext⟩ ⟨hpath', acts', hacts', hcontext'⟩
    refine ⟨hpath'.trans hpath, _, hacts.append hacts', ?_⟩
    rw [hcontext', hcontext, Context.perform_append]
  log _ _ := ⟨rfl, [], ContextAct.isBalanced_nil, rfl⟩
  within := by
    rintro s s' segments ⟨hpath, acts, hacts, hcontext⟩
    refine ⟨hpath, _, hacts.within segments, ?_⟩
    simp only [List.cons_append, Context.perform_cons, Context.perform_append]
    exact congrArg Context.leave hcontext
  along := by
    rintro s s' key ⟨hpath, hcontext⟩
    exact ⟨isFrame_samePath.along key hpath, hcontext⟩

lemma callsKeep_restored {rules : RuleSet} (hrules : ∀ rule ∈ rules.rules, rule.IsWellNested)
    (g : Graph) : CallsKeep rules g Restored := by
  have hcall : ∀ {act : Check Unit}, act.IsWellNested → (Visit.call act).Keeps Restored :=
    fun h s => ⟨rfl, h.exists_perform s.context⟩
  intro rule hrule
  exact ⟨fun place node => hcall ((hrules rule hrule).onSchema g place node),
    fun place node value => hcall ((hrules rule hrule).onLiteral g place node value)⟩

/-! ### The keys on the path as a set -/

namespace Visit

/-- Acts with a key in the set of the keys on the path, and takes the key out of the set also after
a failure. -/
def amid {α : Type} (key : NodeKey) (act : Visit α) : Visit α :=
  ExceptT.mk do
    modify fun s => { s with path := s.path.insert key }
    let outcome ← act.run
    modify fun s => { s with path := s.path.filter (· ≠ key) }
    return outcome

/-- Acts that do the same in all states with a path. -/
def Agree {α : Type} (path : List NodeKey) (act act' : Visit α) : Prop :=
  ∀ s, s.path = path → act.run s = act'.run s

namespace Agree

variable {path : List NodeKey}

lemma refl {α : Type} (path : List NodeKey) (act : Visit α) : Agree path act act := fun _ _ => rfl

lemma get {α : Type} {act act' : State → Visit α}
    (h : ∀ s, s.path = path → Agree path (act s) (act' s)) :
    Agree path (do let s ← MonadState.get; act s) (do let s ← MonadState.get; act' s) :=
  fun s hpath => h s hpath s hpath

lemma bind {α β : Type} {first first' : Visit α} {second second' : α → Visit β}
    (h : Agree path first first') (hkeeps : first.Keeps SamePath)
    (h' : ∀ a, Agree path (second a) (second' a)) :
    Agree path (first >>= second) (first' >>= second') := by
  intro s hpath
  have hkept := hkeeps s
  rw [run_bind_except, run_bind_except, ← h s hpath]
  split
  · next a s' hrun =>
    rw [hrun] at hkept
    exact h' a s' (Eq.trans hkept hpath)
  · rfl

lemma forM {α : Type} {xs : List α} {act act' : α → Visit Unit}
    (h : ∀ x ∈ xs, Agree path (act x) (act' x)) (hkeeps : ∀ x, (act x).Keeps SamePath) :
    Agree path (xs.forM act) (xs.forM act') := by
  induction xs with
  | nil => exact refl path _
  | cons x xs ih =>
    obtain ⟨hx, hxs⟩ := List.forall_mem_cons.mp h
    exact bind hx (hkeeps x) fun _ => ih hxs

lemma within {α : Type} {act act' : Visit α} (h : Agree path act act') (segments : List String) :
    Agree path (within segments act) (within segments act') := by
  intro s hpath
  rw [run_within, run_within, h { s with context := s.context.enter segments } hpath]

/-- A key that is not on the path may as well be put into a set: taken out of it again, it leaves
the keys that were there. -/
lemma along_amid {α : Type} {key : NodeKey} {act act' : Visit α} (hkey : key ∉ path)
    (h : Agree (key :: path) act act') (hkeeps : act.Keeps SamePath) :
    Agree path (along key act) (amid key act') := by
  rintro s rfl
  have hkept : (act.run { s with path := key :: s.path }).2.path = key :: s.path := hkeeps _
  have hinsert : s.path.insert key = key :: s.path := List.insert_of_not_mem hkey
  have hfilter : (key :: s.path).filter (· ≠ key) = s.path := by
    rw [List.filter_cons_of_neg (by simp)]
    apply List.filter_eq_self.mpr
    intro other hother
    simp only [ne_eq, decide_not, Bool.not_eq_true', decide_eq_false_iff_not]
    rintro rfl
    exact hkey hother
  have hrun : (Visit.amid key act').run s
      = ((act'.run { s with path := s.path.insert key }).1,
        { (act'.run { s with path := s.path.insert key }).2 with
          path := (act'.run { s with path := s.path.insert key }).2.path.filter (· ≠ key) }) := rfl
  rw [hrun, run_along, hinsert, ← h { s with path := key :: s.path } rfl, hkept, hfilter,
    List.erase_cons_head]

end Agree

end Visit

/-- The visit of a child with the keys on the path in a set, given how the children below it are
visited. -/
def visitInSet (walker : Walker) (g : Graph) (below : Child → Visit Unit) (child : Child) :
    Visit Unit := do
  let state ← get
  match g.resolve child with
  | .error raw =>
    throw (.invalidGraph ⟨.root raw.kindName, some state.context.pointer⟩)
  | .ok (place, node) =>
    let key := Graph.keyOf place node
    if key ∈ state.path then
      noteCycle node state.context.pointer
    else if isCut walker state.path node then
      pure ()
    else
      checkShape g node
      Visit.amid key do
        runSchemaRules walker.rules g place node
        runLiteralRules walker.rules g place node
        node.children.forM fun (edge, child) => Visit.within edge.segments (below child)

/-- Visits agree whose visits of the children agree once the key of a node is on the path. -/
lemma visitStep_agree {below below' : Child → Visit Unit} {path : List NodeKey}
    (hkeeps : ∀ child, (below child).Keeps SamePath)
    (h : ∀ key ∈ g.keys, key ∉ path → ∀ child, Visit.Agree (key :: path) (below child)
      (below' child)) (child : Child) :
    Visit.Agree path (visitStep walker g below child) (visitInSet walker g below' child) := by
  refine .get fun s hpath => ?_
  cases hresolve : g.resolve child with
  | error raw => exact .refl path _
  | ok found =>
    obtain ⟨place, node⟩ := found
    have hmem : Graph.keyOf place node ∈ g.keys :=
      key_mem_keys (@Stop.at?_of_resolve g s.context.pointer _ _ _ hresolve)
    by_cases hkey : Graph.keyOf place node ∈ s.path
    · simp only [if_pos hkey]
      exact .refl path _
    · by_cases hcut : isCut walker s.path node = true
      · simp only [if_neg hkey, if_pos hcut]
        exact .refl path _
      · simp only [if_neg hkey, if_neg hcut]
        rw [hpath] at hkey
        have hF := isFrame_samePath
        have hcalls := callsKeep_samePath walker.rules g
        refine .bind (.refl path _) (checkShape_keeps hF node) fun _ => .along_amid hkey ?_ ?_
        · refine .bind (.refl _ _) (runSchemaRules_keeps hF hcalls place node) fun _ => ?_
          refine .bind (.refl _ _) (runLiteralRules_keeps hF hcalls place node) fun _ => ?_
          exact .forM (fun next _ => .within (h _ hmem hkey next.2) _)
            fun next => .within hF (hkeeps next.2) _
        · refine .bind hF (runSchemaRules_keeps hF hcalls place node) fun _ => ?_
          refine .bind hF (runLiteralRules_keeps hF hcalls place node) fun _ => ?_
          exact .forM hF fun next _ => .within hF (hkeeps next.2) _

variable {deeper deeper' : Child → Visit Unit}

/-- What stands for visits nested deeper than there are keys off the path plays no part. -/
lemma visitOr_agree (hdeeper : ∀ child, (deeper child).Keeps SamePath)
    (hdeeper' : ∀ child, (deeper' child).Keeps SamePath) {depth : Nat} {path : List NodeKey}
    (hdepth : (g.keys \ path.toFinset).card < depth) (child : Child) :
    Visit.Agree path (visitOr walker g deeper depth child) (visitOr walker g deeper' depth child) := by
  induction depth generalizing path child with
  | zero => omega
  | succ depth ih =>
    have hkeeps := visitOr_keeps isFrame_samePath (callsKeep_samePath walker.rules g) hdeeper depth
    have hkeeps' :=
      visitOr_keeps isFrame_samePath (callsKeep_samePath walker.rules g) hdeeper' depth
    have hset : Visit.Agree path (visitOr walker g deeper (depth + 1) child)
        (visitInSet walker g (visitOr walker g deeper' depth) child) :=
      visitStep_agree hkeeps (fun key hmem hkey => ih (card_sdiff_cons_lt hmem hkey hdepth)) child
    have hset' : Visit.Agree path (visitOr walker g deeper' (depth + 1) child)
        (visitInSet walker g (visitOr walker g deeper' depth) child) :=
      visitStep_agree hkeeps' (fun key _ _ child => .refl _ _) child
    exact fun s hs => (hset s hs).trans (hset' s hs).symm

/-- A visit visits the children as it is visited itself, with the keys on the path in a set. -/
lemma visit_eq_visitInSet (child : Child) (s : State) :
    (visit walker g (depthBound g) child).run s
      = (visitInSet walker g (visit walker g (depthBound g)) child).run s := by
  have hF := isFrame_samePath
  have hcalls := callsKeep_samePath walker.rules g
  have hpure : ∀ _ : Child, (pure () : Visit Unit).Keeps SamePath := fun _ => .pure hF ()
  have hdepth : (g.keys \ s.path.toFinset).card < depthBound g :=
    (Finset.card_le_card Finset.sdiff_subset).trans_lt (card_keys_lt_depthBound g)
  calc (visit walker g (depthBound g) child).run s
      = (visitOr walker g (visitOr walker g (fun _ => pure ()) 1) (depthBound g) child).run s :=
        visitOr_agree hpure (visitOr_keeps hF hcalls hpure 1) hdepth child s rfl
    _ = (visitStep walker g (visit walker g (depthBound g)) child).run s := by
        rw [← visitOr_add]
        rfl
    _ = (visitInSet walker g (visit walker g (depthBound g)) child).run s :=
        visitStep_agree (visitOr_keeps hF hcalls hpure _) (fun _ _ _ _ => .refl _ _) child s rfl

end Walk

/-- A visit is the same as one that keeps the keys on the path in a set, from every state and
however deep the graph leads. With rules that report, act below pointers and fail as they like, a
visit of any graph leaves the path, the base and the entered pointers of any state as they were,
whether it fails or not, and puts the findings reported meanwhile behind the old ones. And in every
well-nested run of operations, a context stands where it stood at first, with the segments of what
is still entered behind, each behind a slash and with its escapes. -/
theorem Walker.visits_restore_state (walker : Walker)
    (hrules : ∀ rule ∈ walker.rules.rules, rule.IsWellNested) (g : Graph) :
    (∀ child s, (visit walker g (depthBound g) child).run s
      = (visitInSet walker g (visit walker g (depthBound g)) child).run s)
    ∧ (∀ child s, ∃ s', ((visit walker g (depthBound g) child).run s).2 = s'
      ∧ s'.path = s.path ∧ s'.context.base = s.context.base
      ∧ s'.context.entered = s.context.entered
      ∧ ∃ acts, ContextAct.IsBalanced acts ∧ s'.context = s.context.perform acts
        ∧ s'.context.collector.findings
          = s.context.collector.findings ++ s.context.reported acts)
    ∧ ∀ (c : Context) (acts : List ContextAct) (opened : List (List String)),
      ContextAct.opened? acts = some opened →
      (c.perform acts).pointer = (if opened.isEmpty then c.pointer else c.pointer.orRoot)
        ++ Pointer.placeOf opened.reverse.flatten := by
  refine ⟨visit_eq_visitInSet, fun child s => ?_, fun c acts opened h => Context.pointer_perform h⟩
  have hpure : ∀ _ : Child, (pure () : Visit Unit).Keeps Restored :=
    fun _ => .pure isFrame_restored ()
  obtain ⟨hpath, acts, hacts, hcontext⟩ :=
    visitOr_keeps isFrame_restored (callsKeep_restored hrules g) hpure (depthBound g) child s
  obtain ⟨hbase, hentered⟩ := Context.perform_of_isBalanced (c := s.context) hacts
  refine ⟨_, rfl, hpath, ?_, ?_, acts, hacts, hcontext, ?_⟩
  · exact (congrArg Context.base hcontext).trans hbase
  · exact (congrArg Context.entered hcontext).trans hentered
  · exact (congrArg (·.collector.findings) hcontext).trans (Context.findings_perform ..)

/-- A rule that reports below where it stands, and gives up still further below at the second node
of a graph. -/
def Rule.faltering : Rule :=
  ⟨"Faltering", .schema fun _ place node =>
    Check.within ["here"] do
      Check.report "Faltering" (node.name?.getD "inline")
      Check.within ["a/b", "0"] do
        if place = 1 then throw (.host "gave up")
        else Check.report "Faltering" "on"⟩

lemma Rule.faltering_isWellNested : Rule.faltering.IsWellNested where
  onSchema g place node := by
    refine .within _ (.bind (.report ..) fun _ => .within _ ?_)
    split
    · exact .throw _
    · exact .report ..
  onLiteral _ _ _ _ := .pure ()

/-- A state on the way through a graph: a pointer is entered, a component is on the path, and there
is a finding already. -/
def Walk.State.halfway : Walk.State :=
  ⟨⟨"#/s", ["#/s/items"], ⟨[⟨"Naming", "#/s", "found before", .custom⟩]⟩⟩, [.component "Z"], []⟩

theorem Walker.visits_restore_state_faltering :
    (∀ rule ∈ [Rule.faltering, Rule.typeMismatch], rule.IsWellNested)
    ∧ (∃ s', ((visit ⟨⟨[.faltering, .typeMismatch]⟩, "#/s", false⟩ .entangled
        (depthBound .entangled) (.node 0)).run .halfway).2 = s'
      ∧ s'.path = [.component "Z"] ∧ s'.context.entered = ["#/s/items"])
    ∧ (Context.perform {} [.enter ["a/b"], .enter ["x"], .leave, .enter ["c", "d"]]).pointer
      = "#/a~1b/c/d" := by
  have hrules : ∀ rule ∈ [Rule.faltering, Rule.typeMismatch], rule.IsWellNested := by
    simp only [List.mem_cons, List.not_mem_nil, or_false, forall_eq_or_imp, forall_eq]
    exact ⟨Rule.faltering_isWellNested,
      Rule.isWellNested_of_mem_builtin (Rule.mem_builtin_iff.mpr (.inl rfl))⟩
  obtain ⟨-, hvisit, hpointer⟩ := Walker.visits_restore_state
    ⟨⟨[.faltering, .typeMismatch]⟩, "#/s", false⟩ hrules .entangled
  obtain ⟨s', hrun, hpath, -, hentered, -⟩ := hvisit (.node 0) .halfway
  refine ⟨hrules, ⟨s', hrun, hpath, hentered⟩, ?_⟩
  rw [hpointer _ _ [["c", "d"], ["a/b"]] rfl]
  decide +kernel

/-- The visit fails at the second node, below two more pointers. -/
example : ((visit ⟨⟨[.faltering, .typeMismatch]⟩, "#/s", false⟩ .entangled
    (depthBound .entangled) (.node 0)).run .halfway).1 = .error (.host "gave up") := by
  rfl

end ApiLint
