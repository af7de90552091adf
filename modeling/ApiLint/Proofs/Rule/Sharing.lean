import ApiLint.Proofs.Rule.Sessions
import ApiLint.Proofs.Walk.Calls

/-!
# Rule sets share nothing

The rules of the registry and of every rule set stand in lists that live somewhere. A registration
and an addition change a list in place; removing and reordering give the set another list; a set is
made by adding its rules one after the other to a new list. If two sets had one list, or a set that
of the registry, then they would change together. They never do: a store behaves like a session, in
which sets are values.
-/

namespace ApiLint

/-- Lists of rules at places, and where the lists of the registry and of the sets are. -/
structure RuleStore where
  lists : Array (List Rule) := #[Rule.builtin]
  registry : Nat := 0
  sets : List Nat := []

namespace RuleStore

/-- The list at a place. -/
def listAt (w : RuleStore) (place : Nat) : List Rule := w.lists.getD place []

/-- The store with another list at a place. -/
def put (w : RuleStore) (place : Nat) (rules : List Rule) : RuleStore :=
  { w with lists := w.lists.setIfInBounds place rules }

/-- The store with one more list. -/
def grow (w : RuleStore) (rules : List Rule) : RuleStore := { w with lists := w.lists.push rules }

/-- What a store is to a host: the registry and the sets, wherever their lists are. -/
def session (w : RuleStore) : Session :=
  ⟨⟨w.listAt w.registry⟩, w.sets.map fun place => ⟨w.listAt place⟩⟩

/-! ### Acts -/

/-- An act on a store. A failure keeps what was done before it. -/
abbrev Act := ExceptT RuleError (StateM RuleStore)

namespace Act

/-- Takes the result, or fails. -/
def ofExcept {α : Type} : Except RuleError α → Act α
  | .ok a => pure a
  | .error e => throw e

def read (place : Nat) : Act (List Rule) := do return (← get).listAt place

def write (place : Nat) (rules : List Rule) : Act Unit := modify (·.put place rules)

/-- Takes a new place for a list. -/
def allocate (rules : List Rule) : Act Nat := do
  let place := (← get).lists.size
  modify (·.grow rules)
  return place

/-- Adds a rule to the list at a place. -/
def addAt (place : Nat) (rule : Rule) (index : Option Int) : Act Unit := do
  let added ← ofExcept (RuleSet.add ⟨← read place⟩ rule index)
  write place added.rules

/-- Makes a set: its rules are added to a new list one after the other. -/
def construct (rules : List Rule) : Act Unit := do
  let place ← allocate []
  rules.forM fun rule => addAt place rule none
  modify fun w => { w with sets := w.sets ++ [place] }

/-- Gives a set a new list, made from its list. -/
def rebind (set place : Nat) (change : RuleSet → Except RuleError RuleSet) : Act Unit := do
  let changed ← ofExcept (change ⟨← read place⟩)
  let place ← allocate changed.rules
  modify fun w => { w with sets := w.sets.set set place }

/-- Acts on the list of a set. A set that was not made has none. -/
def onSet (set : Nat) (act : Nat → Act Unit) : Act Unit := do
  match (← get).sets[set]? with
  | some place => act place
  | none => pure ()

/-- Carries out an operation. -/
def perform : Session.Operation → Act Unit
  | .register rule => do
    let place := (← get).registry
    let registry ← ofExcept (Registry.register ⟨← read place⟩ rule)
    write place registry.rules
  | .ofList rules => construct rules
  | .empty => construct []
  | .default => do construct (← read (← get).registry)
  | .ofNames names extra => do
    let registry : Registry := ⟨← read (← get).registry⟩
    construct (← ofExcept (RuleSet.select (RuleSet.selectable registry extra) names))
  | .copy set => onSet set fun place => do construct (← read place)
  | .add set rule index => onSet set fun place => addAt place rule index
  | .remove set name => onSet set fun place => rebind set place (·.remove name)
  | .reorder set names => onSet set fun place => rebind set place (·.reorder names)

end Act

/-- The store after an operation, a failed one included. -/
def step (w : RuleStore) (op : Session.Operation) : RuleStore := ((Act.perform op).run w).2

/-- The store after operations. -/
def run (w : RuleStore) (ops : List Session.Operation) : RuleStore := ops.foldl step w

/-- The rules that operations register, in order. -/
def registered (w : RuleStore) : List Session.Operation → List Rule
  | [] => []
  | op :: ops =>
    let rules := match ((Act.perform op).run w).1 with
      | .ok () => op.registered?.toList
      | .error _ => []
    rules ++ (w.step op).registered ops

/-! ### Places -/

/-- The registry and the sets have lists of their own. -/
structure IsSeparate (w : RuleStore) : Prop where
  distinct : (w.registry :: w.sets).Nodup
  inBounds : ∀ place ∈ w.registry :: w.sets, place < w.lists.size

variable {w : RuleStore} {place : Nat} {rules : List Rule}

lemma listAt_put_self (h : place < w.lists.size) : (w.put place rules).listAt place = rules := by
  simp [listAt, put, h]

lemma listAt_put_of_ne {other : Nat} (h : place ≠ other) :
    (w.put place rules).listAt other = w.listAt other := by
  simp [listAt, put, h]

lemma listAt_grow_of_lt (h : place < w.lists.size) : (w.grow rules).listAt place = w.listAt place := by
  simp [listAt, grow, Array.getElem?_push, Nat.ne_of_lt h]

lemma listAt_grow_size : (w.grow rules).listAt w.lists.size = rules := by
  simp [listAt, grow]

@[simp] lemma put_listAt (h : place < w.lists.size) : w.put place (w.listAt place) = w := by
  simp [put, listAt, h, Array.setIfInBounds]

lemma put_put (others : List Rule) : (w.put place rules).put place others = w.put place others := by
  by_cases h : place < w.lists.size <;> simp [put, Array.setIfInBounds, h]

lemma put_grow_size (others : List Rule) :
    (w.grow rules).put w.lists.size others = w.grow others := by
  simp [put, grow, Array.setIfInBounds, Array.set_push]

namespace IsSeparate

/-- A list that nothing refers to makes no difference. -/
lemma grow (h : w.IsSeparate) (rules : List Rule) : (w.grow rules).IsSeparate where
  distinct := h.distinct
  inBounds place hplace := by
    simpa [RuleStore.grow] using Nat.lt_succ_of_lt (h.inBounds place hplace)

lemma session_grow (h : w.IsSeparate) (rules : List Rule) :
    (w.grow rules).session = w.session := by
  have hlist : ∀ place ∈ w.registry :: w.sets, (w.grow rules).listAt place = w.listAt place :=
    fun place hplace => listAt_grow_of_lt (h.inBounds place hplace)
  simp only [session, RuleStore.grow] at hlist ⊢
  rw [hlist _ (List.mem_cons_self ..)]
  congr 1
  exact List.map_congr_left fun place hplace => by rw [hlist _ (List.mem_cons_of_mem _ hplace)]

/-- Nothing refers to the next place yet. -/
lemma size_notMem (h : w.IsSeparate) : w.lists.size ∉ w.registry :: w.sets :=
  fun hmem => Nat.lt_irrefl _ (h.inBounds _ hmem)

/-- A set with a new list. -/
lemma link (h : w.IsSeparate) (rules : List Rule) :
    IsSeparate { w.grow rules with sets := w.sets ++ [w.lists.size] } where
  distinct := by
    change (w.registry :: (w.sets ++ [w.lists.size])).Nodup
    rw [← List.cons_append, List.nodup_append]
    refine ⟨h.distinct, List.nodup_singleton _, ?_⟩
    rintro place hplace _ hnew rfl
    rw [List.mem_singleton.mp hnew] at hplace
    exact h.size_notMem hplace
  inBounds place hplace := by
    change place < (w.lists.push rules).size
    rw [Array.size_push]
    change place ∈ w.registry :: (w.sets ++ [w.lists.size]) at hplace
    rw [← List.cons_append, List.mem_append, List.mem_singleton] at hplace
    rcases hplace with hplace | rfl
    · exact Nat.lt_succ_of_lt (h.inBounds place hplace)
    · exact Nat.lt_succ_self _

lemma session_link (h : w.IsSeparate) (rules : List Rule) :
    session { w.grow rules with sets := w.sets ++ [w.lists.size] } = w.session.push ⟨rules⟩ := by
  have hsession := h.session_grow rules
  simp only [session, Session.push, Session.mk.injEq] at hsession ⊢
  refine ⟨hsession.1, ?_⟩
  rw [List.map_append, ← hsession.2]
  congr 1
  exact congrArg (fun rules => [RuleSet.mk rules]) listAt_grow_size

/-- A change in place concerns one list. -/
lemma put (h : w.IsSeparate) (place : Nat) (rules : List Rule) : (w.put place rules).IsSeparate where
  distinct := h.distinct
  inBounds other hother := by simpa [RuleStore.put] using h.inBounds other hother

lemma session_put_registry (h : w.IsSeparate) (rules : List Rule) :
    (w.put w.registry rules).session = { w.session with registry := ⟨rules⟩ } := by
  have hregistry : (w.put w.registry rules).listAt w.registry = rules :=
    listAt_put_self (h.inBounds _ (List.mem_cons_self ..))
  have hsets : ∀ place ∈ w.sets, (w.put w.registry rules).listAt place = w.listAt place := by
    rintro place hplace
    apply listAt_put_of_ne
    rintro rfl
    exact (List.nodup_cons.mp h.distinct).1 hplace
  simp only [session, Session.mk.injEq, Registry.mk.injEq]
  exact ⟨hregistry, List.map_congr_left fun place hplace => by rw [← hsets place hplace]⟩

lemma registry_ne (h : w.IsSeparate) {set : Nat} (hset : w.sets[set]? = some place) :
    place ≠ w.registry := by
  rintro rfl
  exact (List.nodup_cons.mp h.distinct).1 (List.mem_of_getElem? hset)

/-- The sets after one of them has come to rules that stand at a place, if the others did not
change. -/
lemma session_eq {w' : RuleStore} (h : w.IsSeparate) {set : Nat}
    (hset : w.sets[set]? = some place) {place' : Nat} (hsets : w'.sets = w.sets.set set place')
    (hregistry : w'.listAt w'.registry = w.listAt w.registry) (hrules : w'.listAt place' = rules)
    (hothers : ∀ other ∈ w.sets, other ≠ place → w'.listAt other = w.listAt other) :
    w'.session = { w.session with sets := w.session.sets.set set ⟨rules⟩ } := by
  simp only [session, Session.mk.injEq, Registry.mk.injEq]
  refine ⟨hregistry, List.ext_getElem? fun i => ?_⟩
  obtain ⟨hlt, hplace⟩ := List.getElem?_eq_some_iff.mp hset
  rw [hsets, List.getElem?_map, List.getElem?_set, List.getElem?_set, List.length_map,
    List.getElem?_map]
  by_cases hi : set = i
  · simp [hi ▸ hlt, hi, hrules]
  · rw [if_neg hi, if_neg hi]
    cases hother : w.sets[i]? with
    | none => rfl
    | some other =>
      obtain ⟨hlt', hother'⟩ := List.getElem?_eq_some_iff.mp hother
      have hne : other ≠ place := by
        rintro rfl
        exact hi ((List.nodup_cons.mp h.distinct).2.getElem_inj_iff.mp (hplace.trans hother'.symm))
      simp [hothers other (List.mem_of_getElem? hother) hne]

lemma session_put (h : w.IsSeparate) {set : Nat} (hset : w.sets[set]? = some place)
    (rules : List Rule) :
    (w.put place rules).session = { w.session with sets := w.session.sets.set set ⟨rules⟩ } := by
  obtain ⟨hlt, rfl⟩ := List.getElem?_eq_some_iff.mp hset
  have hsets : w.sets = w.sets.set set w.sets[set] := (List.set_getElem_self hlt).symm
  refine h.session_eq hset hsets ?_ ?_ ?_
  · exact listAt_put_of_ne (h.registry_ne hset)
  · exact listAt_put_self (h.inBounds _ (List.mem_cons_of_mem _ (List.getElem_mem hlt)))
  · exact fun _ _ hne => listAt_put_of_ne hne.symm

/-- A set with another new list. -/
lemma relink (h : w.IsSeparate) (set : Nat) (rules : List Rule) :
    IsSeparate { w.grow rules with sets := w.sets.set set w.lists.size } where
  distinct := by
    obtain ⟨hregistry, hsets⟩ := List.nodup_cons.mp h.distinct
    have hnew := h.size_notMem
    rw [List.mem_cons, not_or] at hnew
    refine List.nodup_cons.mpr ⟨fun hmem => ?_, hsets.set hnew.2⟩
    rcases List.mem_or_eq_of_mem_set hmem with hmem | heq
    · exact hregistry hmem
    · exact hnew.1 heq.symm
  inBounds place hplace := by
    change place < (w.lists.push rules).size
    rw [Array.size_push]
    rcases List.mem_cons.mp hplace with rfl | hplace
    · exact Nat.lt_succ_of_lt (h.inBounds _ (List.mem_cons_self ..))
    · rcases List.mem_or_eq_of_mem_set hplace with hplace | rfl
      · exact Nat.lt_succ_of_lt (h.inBounds _ (List.mem_cons_of_mem _ hplace))
      · exact Nat.lt_succ_self _

lemma session_relink (h : w.IsSeparate) {set : Nat} (hset : w.sets[set]? = some place)
    (rules : List Rule) :
    session { w.grow rules with sets := w.sets.set set w.lists.size }
      = { w.session with sets := w.session.sets.set set ⟨rules⟩ } :=
  h.session_eq hset rfl (listAt_grow_of_lt (h.inBounds _ (List.mem_cons_self ..))) listAt_grow_size
    fun _ hother _ => listAt_grow_of_lt (h.inBounds _ (List.mem_cons_of_mem _ hother))

end IsSeparate

/-! ### Acts on separate lists -/

namespace Act

/-- An act does to a separate store what is said of its session: it comes to another session, or
fails and leaves the session as it is. The store stays separate. -/
def Realizes (act : Act Unit) (w : RuleStore) (outcome : Except RuleError Session) : Prop :=
  ∃ w' : RuleStore, w'.IsSeparate ∧
    match outcome with
    | .ok s => act.run w = (.ok (), w') ∧ w'.session = s
    | .error e => act.run w = (.error e, w') ∧ w'.session = w.session

lemma run_addAt (rule : Rule) (index : Option Int) :
    (addAt place rule index).run w = match RuleSet.add ⟨w.listAt place⟩ rule index with
      | .ok added => (.ok (), w.put place added.rules)
      | .error e => (.error e, w) := by
  have hrun : (addAt place rule index).run w
      = (ofExcept (RuleSet.add ⟨w.listAt place⟩ rule index) >>= fun added =>
          write place added.rules).run w := rfl
  rw [hrun]
  cases RuleSet.add ⟨w.listAt place⟩ rule index <;> rfl

/-- The loop that adds rules to one list comes to the set of these rules, or stops on the way. -/
lemma run_forM_addAt (hplace : place < w.lists.size) (more : List Rule) :
    match more.foldlM (fun s rule => RuleSet.add s rule) ⟨w.listAt place⟩ with
    | .ok set => (more.forM fun rule => addAt place rule none).run w = (.ok (), w.put place set.rules)
    | .error e => ∃ part, (more.forM fun rule => addAt place rule none).run w
        = (.error e, w.put place part) := by
  induction more generalizing w with
  | nil =>
    change _ = ((.ok () : Except RuleError Unit), w.put place (w.listAt place))
    rw [put_listAt hplace]
    rfl
  | cons rule more ih =>
    have hrun : ((rule :: more).forM fun rule => addAt place rule none).run w
        = (addAt place rule none >>= fun _ => more.forM fun rule => addAt place rule none).run w :=
      rfl
    rw [hrun, run_bind_except, run_addAt, List.foldlM_cons]
    cases hadd : RuleSet.add ⟨w.listAt place⟩ rule with
    | error e => exact ⟨w.listAt place, by rw [put_listAt hplace]⟩
    | ok added =>
      have hmore := ih (w := w.put place added.rules) (by simpa [put] using hplace)
      simp only [listAt_put_self hplace, put_put] at hmore
      exact hmore

/-- Making a set leaves all others and the registry alone, also if it fails on the way. -/
lemma construct_realizes (h : w.IsSeparate) (rules : List Rule) :
    (construct rules).Realizes w ((RuleSet.ofList rules).map w.session.push) := by
  have hrun : (construct rules).run w
      = ((rules.forM fun rule => addAt w.lists.size rule none) >>= fun _ => modify fun w' =>
          { w' with sets := w'.sets ++ [w.lists.size] }).run (w.grow []) := rfl
  have hplace : w.lists.size < (w.grow []).lists.size := by simp [RuleStore.grow]
  have hloop := run_forM_addAt hplace rules
  rw [listAt_grow_size] at hloop
  change match RuleSet.ofList rules with | .ok _ => _ | .error _ => _ at hloop
  rw [Realizes, hrun, run_bind_except]
  cases hset : RuleSet.ofList rules with
  | ok set =>
    rw [hset] at hloop
    simp only [put_grow_size] at hloop
    rw [hloop]
    exact ⟨_, h.link set.rules, rfl, h.session_link set.rules⟩
  | error e =>
    rw [hset] at hloop
    obtain ⟨part, hloop⟩ := hloop
    rw [put_grow_size] at hloop
    rw [hloop]
    exact ⟨_, h.grow part, rfl, h.session_grow part⟩

/-- Giving a set another list leaves the others alone. -/
lemma rebind_realizes (h : w.IsSeparate) {set : Nat} (hset : w.sets[set]? = some place)
    (change : RuleSet → Except RuleError RuleSet) :
    (rebind set place change).Realizes w ((change ⟨w.listAt place⟩).map fun rules =>
      { w.session with sets := w.session.sets.set set rules }) := by
  have hrun : (rebind set place change).run w
      = (ofExcept (change ⟨w.listAt place⟩) >>= fun changed => do
          let place ← allocate changed.rules
          modify fun w => { w with sets := w.sets.set set place }).run w := rfl
  rw [Realizes, hrun, run_bind_except]
  cases change ⟨w.listAt place⟩ with
  | ok changed => exact ⟨_, h.relink set changed.rules, rfl, h.session_relink hset changed.rules⟩
  | error e => exact ⟨w, h, rfl, rfl⟩

/-- An addition to the list of a set leaves the others alone. -/
lemma addAt_realizes (h : w.IsSeparate) {set : Nat} (hset : w.sets[set]? = some place) (rule : Rule)
    (index : Option Int) :
    (addAt place rule index).Realizes w ((RuleSet.add ⟨w.listAt place⟩ rule index).map fun rules =>
      { w.session with sets := w.session.sets.set set rules }) := by
  rw [Realizes, run_addAt]
  cases RuleSet.add ⟨w.listAt place⟩ rule index with
  | ok added => exact ⟨_, h.put place added.rules, rfl, h.session_put hset added.rules⟩
  | error e => exact ⟨w, h, rfl, rfl⟩

lemma register_realizes (h : w.IsSeparate) (rule : Rule) :
    (perform (.register rule)).Realizes w (w.session.attempt (.register rule)) := by
  have hrun : (perform (.register rule)).run w
      = (ofExcept (Registry.register ⟨w.listAt w.registry⟩ rule) >>= fun registry =>
          write w.registry registry.rules).run w := rfl
  have hattempt : w.session.attempt (.register rule)
      = (Registry.register ⟨w.listAt w.registry⟩ rule).map fun registry =>
          { w.session with registry } := rfl
  rw [Realizes, hrun, run_bind_except, hattempt]
  cases Registry.register ⟨w.listAt w.registry⟩ rule with
  | ok registry =>
    exact ⟨_, h.put w.registry registry.rules, rfl, h.session_put_registry registry.rules⟩
  | error e => exact ⟨w, h, rfl, rfl⟩

lemma ofNames_realizes (h : w.IsSeparate) (names : List String) (extra : List Rule) :
    (perform (.ofNames names extra)).Realizes w (w.session.attempt (.ofNames names extra)) := by
  have hrun : (perform (.ofNames names extra)).run w
      = (ofExcept (RuleSet.select (RuleSet.selectable ⟨w.listAt w.registry⟩ extra) names)
          >>= construct).run w := rfl
  have hattempt : w.session.attempt (.ofNames names extra)
      = (RuleSet.ofNames ⟨w.listAt w.registry⟩ names extra).1.map w.session.push := rfl
  rw [Realizes, hrun, run_bind_except, hattempt, RuleSet.ofNames]
  cases RuleSet.select (RuleSet.selectable ⟨w.listAt w.registry⟩ extra) names with
  | ok rules => exact construct_realizes h rules
  | error e => exact ⟨w, h, rfl, rfl⟩

/-- What is done to the list of a set, if there is such a set. -/
lemma onSet_realizes (h : w.IsSeparate) {set : Nat} {act : Nat → Act Unit}
    {outcome : RuleSet → Except RuleError Session}
    (hact : ∀ place, w.sets[set]? = some place →
      (act place).Realizes w (outcome ⟨w.listAt place⟩)) :
    (onSet set act).Realizes w (match w.session.sets[set]? with
      | some rules => outcome rules
      | none => .ok w.session) := by
  have hrun : (onSet set act).run w
      = ((match w.sets[set]? with
          | some place => act place
          | none => pure ()) : Act Unit).run w := rfl
  have hfound : w.session.sets[set]? = (w.sets[set]?).map fun place => ⟨w.listAt place⟩ :=
    List.getElem?_map ..
  rw [Realizes, hrun, hfound]
  cases hset : w.sets[set]? with
  | some place => exact hact place hset
  | none => exact ⟨w, h, rfl, rfl⟩

/-- Operations do to a separate store what they do to its session. -/
lemma perform_realizes (h : w.IsSeparate) (op : Session.Operation) :
    (perform op).Realizes w (w.session.attempt op) := by
  cases op with
  | register rule => exact register_realizes h rule
  | ofList rules => exact construct_realizes h rules
  | empty => exact construct_realizes h []
  | default => exact construct_realizes h (w.listAt w.registry)
  | ofNames names extra => exact ofNames_realizes h names extra
  | copy set => exact onSet_realizes h fun place _ => construct_realizes h (w.listAt place)
  | add set rule index =>
    exact onSet_realizes h fun place hset => addAt_realizes h hset rule index
  | remove set name =>
    exact onSet_realizes h fun place hset => rebind_realizes h hset (·.remove name)
  | reorder set names =>
    exact onSet_realizes h fun place hset => rebind_realizes h hset (·.reorder names)

end Act

/-! ### Runs -/

lemma isSeparate_initial : IsSeparate {} where
  distinct := by decide
  inBounds := by decide

/-- An operation that fails leaves every set and the registry as they are. -/
lemma step_of_error (h : w.IsSeparate) {op : Session.Operation} {e : RuleError}
    (hop : w.session.attempt op = .error e) :
    (Act.perform op).run w = (.error e, w.step op) ∧ (w.step op).session = w.session
      ∧ (w.step op).IsSeparate := by
  obtain ⟨w', hw', hrun⟩ := Act.perform_realizes h op
  simp only [hop] at hrun
  simp only [step, hrun.1]
  exact ⟨trivial, hrun.2, hw'⟩

lemma step_of_ok (h : w.IsSeparate) {op : Session.Operation} {s : Session}
    (hop : w.session.attempt op = .ok s) :
    (Act.perform op).run w = (.ok (), w.step op) ∧ (w.step op).session = s
      ∧ (w.step op).IsSeparate := by
  obtain ⟨w', hw', hrun⟩ := Act.perform_realizes h op
  simp only [hop] at hrun
  simp only [step, hrun.1]
  exact ⟨trivial, hrun.2, hw'⟩

lemma isSeparate_step (h : w.IsSeparate) (op : Session.Operation) : (w.step op).IsSeparate := by
  cases hop : w.session.attempt op with
  | error e => exact (step_of_error h hop).2.2
  | ok s => exact (step_of_ok h hop).2.2

lemma isSeparate_run (h : w.IsSeparate) (ops : List Session.Operation) : (w.run ops).IsSeparate := by
  induction ops generalizing w with
  | nil => exact h
  | cons op ops ih => exact ih (isSeparate_step h op)

end RuleStore

namespace Session

/-- What an operation that succeeds can make of a session. -/
inductive Effect (s : Session) : Operation → Session → Prop
  | registered {rule : Rule} (new : rule.name ∉ s.registry.rules.map Rule.name) :
      Effect s (.register rule) { s with registry := ⟨s.registry.rules ++ [rule]⟩ }
  | made {op : Operation} (other : op.registered? = none) (set : RuleSet) : Effect s op (s.push set)
  | changed {op : Operation} (other : op.registered? = none) {set : Nat}
      (target : op.target? = some set) (rules : RuleSet) :
      Effect s op { s with sets := s.sets.set set rules }
  | none {op : Operation} (other : op.registered? = none) : Effect s op s

variable {s t : Session} {op : Operation}

lemma effect_of_map_push {outcome : Except RuleError RuleSet} (other : op.registered? = none)
    (h : outcome.map s.push = .ok t) : s.Effect op t := by
  obtain ⟨set, _, rfl⟩ := map_eq_ok_iff.mp h
  exact .made other set

lemma effect_of_change {set : Nat} {act : RuleSet → Except RuleError RuleSet}
    (other : op.registered? = none) (target : op.target? = some set)
    (h : s.change set act = .ok t) : s.Effect op t := by
  rw [change] at h
  split at h
  · obtain ⟨rules, _, rfl⟩ := map_eq_ok_iff.mp h
    exact .changed other target rules
  · cases h
    exact .none other

lemma effect_of_attempt (h : s.attempt op = .ok t) : s.Effect op t := by
  cases op with
  | register rule =>
    obtain ⟨registry, hregistry, rfl⟩ := map_eq_ok_iff.mp h
    rw [Registry.register] at hregistry
    split at hregistry
    · cases hregistry
    · next hnew =>
      cases hregistry
      exact .registered (by simpa using hnew)
  | ofList rules => exact effect_of_map_push rfl h
  | empty =>
    cases h
    exact .made rfl _
  | default => exact effect_of_map_push rfl h
  | ofNames names extra => exact effect_of_map_push rfl h
  | copy set =>
    rw [attempt] at h
    split at h
    · exact effect_of_map_push rfl h
    · cases h
      exact .none rfl
  | add set rule index => exact effect_of_change rfl rfl h
  | remove set name => exact effect_of_change rfl rfl h
  | reorder set names => exact effect_of_change rfl rfl h

/-- The registry gets the rule that is registered, and nothing else. -/
lemma Effect.registry (h : s.Effect op t) :
    t.registry.rules = s.registry.rules ++ op.registered?.toList := by
  cases h with
  | registered => rfl
  | made other | changed other | none other => simp [other, push]

/-- The sets that an operation is not about stay as they are. -/
lemma Effect.sets (h : s.Effect op t) {set : Nat} (hset : set < s.sets.length)
    (hne : op.target? ≠ some set) : t.sets[set]? = s.sets[set]? := by
  cases h with
  | registered | none => rfl
  | made => exact List.getElem?_append_left hset
  | changed _ target =>
    apply List.getElem?_set_ne
    rintro rfl
    exact hne target

/-- Registered rules have distinct names. -/
lemma Effect.nodup_registry (h : s.Effect op t) (hs : (s.registry.rules.map Rule.name).Nodup) :
    (t.registry.rules.map Rule.name).Nodup := by
  cases h with
  | registered new =>
    rw [List.map_append, List.map_singleton]
    exact List.nodup_append.mpr ⟨hs, List.nodup_singleton _, by
      rintro _ hname _ hnew rfl
      rw [List.mem_singleton.mp hnew] at hname
      exact new hname⟩
  | made | changed | none => exact hs

end Session

namespace RuleStore

variable {w : RuleStore}

/-- Whatever happens, the registered rules have distinct names. -/
lemma nodup_registry_run (h : w.IsSeparate) (hw : (w.session.registry.rules.map Rule.name).Nodup)
    (ops : List Session.Operation) : ((w.run ops).session.registry.rules.map Rule.name).Nodup := by
  induction ops generalizing w with
  | nil => exact hw
  | cons op ops ih =>
    refine ih (isSeparate_step h op) ?_
    cases hop : w.session.attempt op with
    | error e => rwa [(step_of_error h hop).2.1]
    | ok s =>
      rw [(step_of_ok h hop).2.1]
      exact (Session.effect_of_attempt hop).nodup_registry hw

/-- The registry holds the rules from the start and those that were registered, in order. -/
lemma registry_run (h : w.IsSeparate) (ops : List Session.Operation) :
    (w.run ops).session.registry.rules = w.session.registry.rules ++ w.registered ops := by
  induction ops generalizing w with
  | nil => simp [run, registered]
  | cons op ops ih =>
    change ((w.step op).run ops).session.registry.rules = _
    rw [ih (isSeparate_step h op), registered]
    cases hop : w.session.attempt op with
    | error e =>
      obtain ⟨hrun, hsession, _⟩ := step_of_error h hop
      rw [hrun, hsession]
      rfl
    | ok s =>
      obtain ⟨hrun, hsession, _⟩ := step_of_ok h hop
      rw [hrun, hsession, (Session.effect_of_attempt hop).registry, List.append_assoc]

/-- After any operations on a store: if the next one fails, then every set and the registry stay as
they are. If it succeeds, then it comes to what it comes to where sets are values: the registry gets
a rule that is registered and nothing else, and of the sets that were there none changes but the one
that the operation is about. The set of all known rules can always be made, and it has the rules
known from the start and those that were registered, in order. -/
theorem operations_keep_apart (ops : List Session.Operation) :
    let w := ({} : RuleStore).run ops
    (∀ op e, ((Act.perform op).run w).1 = .error e →
      w.session.attempt op = .error e ∧ (w.step op).session = w.session)
    ∧ (∀ op, ((Act.perform op).run w).1 = .ok () →
      w.session.attempt op = .ok (w.step op).session
      ∧ (w.step op).session.registry.rules = w.session.registry.rules ++ op.registered?.toList
      ∧ ∀ set < w.session.sets.length, op.target? ≠ some set →
        (w.step op).session.sets[set]? = w.session.sets[set]?)
    ∧ ((Act.perform .default).run w).1 = .ok ()
    ∧ (w.step .default).session
      = w.session.push ⟨Rule.builtin ++ ({} : RuleStore).registered ops⟩ := by
  intro w
  have hw : w.IsSeparate := isSeparate_run isSeparate_initial ops
  -- Names stay distinct in the registry, and so its rules make a set.
  have hdefault : w.session.attempt .default
      = .ok (w.session.push ⟨Rule.builtin ++ ({} : RuleStore).registered ops⟩) := by
    have hregistry : w.session.registry.rules = Rule.builtin ++ ({} : RuleStore).registered ops :=
      registry_run isSeparate_initial ops
    have hnodup := nodup_registry_run isSeparate_initial (by decide) ops
    have hset := RuleSet.ofList_eq_ok_iff.mpr ⟨rfl, hnodup⟩
    rw [Session.attempt, RuleSet.default, hset, ← hregistry]
    rfl
  refine ⟨fun op e he => ?_, fun op hok => ?_, ?_, ?_⟩
  · cases hop : w.session.attempt op with
    | error e' =>
      obtain ⟨hrun, hsession, -⟩ := step_of_error hw hop
      rw [hrun] at he
      cases he
      exact ⟨rfl, hsession⟩
    | ok s =>
      rw [(step_of_ok hw hop).1] at he
      cases he
  · cases hop : w.session.attempt op with
    | error e =>
      rw [(step_of_error hw hop).1] at hok
      cases hok
    | ok s =>
      obtain ⟨-, hsession, -⟩ := step_of_ok hw hop
      have heffect := Session.effect_of_attempt hop
      rw [hsession]
      exact ⟨rfl, heffect.registry, fun set hset hne => heffect.sets hset hne⟩
  · rw [(step_of_ok hw hdefault).1]
  · exact (step_of_ok hw hdefault).2.1

end RuleStore

end ApiLint
