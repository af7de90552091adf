import ApiLint.Proofs.Outcome
import ApiLint.Proofs.Walk.Calls

/-!
# What breaks a walk off

On a well-formed graph, rules that only report give a walk nothing to fail at but the log: a node
that the walk comes back to has to be named there. So it ends with its findings, or at a number that
is too long to be written.
-/

namespace ApiLint

namespace Walk

namespace Visit

/-- An act that is broken off, from whatever state, by faults with a property only. -/
def BreaksOnly (P : Fault → Prop) (act : Visit Unit) : Prop := ∀ s, OnlyFails P (act.run s).1

namespace BreaksOnly

variable {P : Fault → Prop}

lemma pure : BreaksOnly P (Pure.pure ()) := fun _ => .ok ()

lemma throw {fault : Fault} (h : P fault) : BreaksOnly P (MonadExcept.throw fault) :=
  fun _ => .error h

lemma note (message : String) : BreaksOnly P (note message) := fun _ => .ok ()

lemma get {act : State → Visit Unit} (h : ∀ s, BreaksOnly P (act s)) :
    BreaksOnly P (do let s ← MonadState.get; act s) := fun s => h s s

lemma bind {first second : Visit Unit} (h : BreaksOnly P first) (h' : BreaksOnly P second) :
    BreaksOnly P (do first; second) := by
  intro s
  have hfirst := h s
  rw [run_bind_except]
  split
  · exact h' _
  · next fault s' hrun =>
    rw [hrun] at hfirst
    exact .error (hfirst fault rfl)

lemma forM {α : Type} {xs : List α} {act : α → Visit Unit} (h : ∀ x ∈ xs, BreaksOnly P (act x)) :
    BreaksOnly P (xs.forM act) := by
  induction xs with
  | nil => exact pure
  | cons x xs ih =>
    obtain ⟨hx, hxs⟩ := List.forall_mem_cons.mp h
    exact bind hx (ih hxs)

lemma within {act : Visit Unit} (h : BreaksOnly P act) (segments : List String) :
    BreaksOnly P (within segments act) := fun _ => h _

lemma along {act : Visit Unit} (h : BreaksOnly P act) (key : NodeKey) :
    BreaksOnly P (along key act) := fun _ => h _

/-- What only reports is not broken off. -/
lemma of_reports {act : Visit Unit} {fs : Pointer → List Finding}
    (h : ∀ pointer path, Reports act pointer path (fs pointer)) : BreaksOnly P act := by
  intro s
  obtain ⟨_, hrun⟩ := h s.context.pointer s.path s rfl rfl
  rw [hrun]
  exact .ok ()

end BreaksOnly

end Visit

variable {walker : Walker} {g : Graph} {found : Rule → Examination}

/-- The record of a cycle is broken off only by a name that is too long. -/
lemma noteCycle_breaksOnly (node : Node) (pointer : Pointer) :
    (noteCycle node pointer).BreaksOnly (· = .number .tooLongToWrite) := by
  rw [noteCycle]
  split
  · exact .note _
  · next e he => exact .throw (by rw [SchemaNode.eq_tooLongToWrite_of_describe he])

lemma visitOr_breaksOnly (hg : g.IsWellFormed)
    (hrules : ∀ rule ∈ walker.rules.rules, rule.Reports g (found rule)) (depth : Nat)
    {child : Child}
    (hchild : ∃ result, g.resolve child = .ok result) :
    (visitOr walker g (fun _ => pure ()) depth child).BreaksOnly
      (· = .number .tooLongToWrite) := by
  induction depth generalizing child with
  | zero => exact .pure
  | succ depth ih =>
    obtain ⟨⟨place, node⟩, hresolve⟩ := hchild
    obtain ⟨-, hnode⟩ := Graph.resolve_eq_ok_iff.mp hresolve
    have hmem : node ∈ g.nodes := Array.mem_of_getElem? hnode
    refine .get fun s => ?_
    simp only [hresolve]
    split
    · exact noteCycle_breaksOnly node _
    · split
      · exact .pure
      · refine .bind (.of_reports (checkShape_reports hg hmem)) (.along ?_ _)
        refine .bind (.of_reports (runSchemaRules_reports hrules hnode)) ?_
        refine .bind (.of_reports (runLiteralRules_reports hrules hnode)) ?_
        exact .forM fun (edge, next) he => .within (ih (hg.child node hmem _ he)) _

/-- A walk of a well-formed graph with rules that only report comes to an end, or to a name that is
too long to be written. -/
lemma findings_walk_cases (hg : g.IsWellFormed)
    (hrules : ∀ rule ∈ walker.rules.rules, rule.Reports g (found rule)) {root : Child}
    (hroot : ∃ result, g.resolve root = .ok result) :
    (∃ findings, (walker.walk g root).findings = .ok findings)
      ∨ (walker.walk g root).findings = .error (.number .tooLongToWrite) := by
  let start : State := ⟨⟨walker.base, [], {}⟩, [], [.debug logger
    (s!"Walking schema graph at {walker.base} with rules "
      ++ Raw.inspectNames walker.rules.names)]⟩
  have hbreaks := visitOr_breaksOnly hg hrules (depthBound g) hroot start
  rcases hrun : (visit walker g (depthBound g) root).run start with ⟨fault | _, state⟩
  · have hfault : fault = .number .tooLongToWrite := hbreaks fault (by rw [← visit, hrun])
    simp only [Walker.walk, start] at hrun ⊢
    rw [hrun, hfault]
    exact .inr rfl
  · simp only [Walker.walk, start] at hrun ⊢
    rw [hrun]
    exact .inl ⟨_, rfl⟩

end Walk

end ApiLint
