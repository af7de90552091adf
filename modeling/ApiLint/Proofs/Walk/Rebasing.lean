import ApiLint.Proofs.Matching.Divergences
import ApiLint.Proofs.Matching.Echoes
import ApiLint.Proofs.Rule.Faults

/-!
# Walks below other pointers

The pointer of a walk only tells where things are. A walk of the same graph below another pointer,
with rules of the library, finds the same in the same order or fails in the same way, and every
pointer in what it finds or fails with is the one of the first walk, moved below the other pointer.

Nothing is known here of the two pointers but that they are related, by a relation that goes on
below them; what is done with pointers keeps to such a relation, whichever it is.
-/

namespace ApiLint

/-! ### Related pointers -/

namespace Pointer

/-- A relation of pointers that goes on below them. -/
def GoesOn (R : Pointer → Pointer → Prop) : Prop :=
  ∀ ⦃pointer pointer'⦄, R pointer pointer' → ∀ segments,
    R (pointer.join segments) (pointer'.join segments)

/-- Pointers at the same place below two pointers. -/
def Rebased (base base' pointer pointer' : Pointer) : Prop :=
  ∃ segments, pointer = base.join segments ∧ pointer' = base'.join segments

lemma goesOn_rebased (base base' : Pointer) : GoesOn (Rebased base base') := by
  rintro _ _ ⟨above, rfl, rfl⟩ segments
  exact ⟨above ++ segments, join_join .., join_join ..⟩

/-- Pointers of which the second one is the first one with another prefix. -/
def Moved (base base' pointer pointer' : Pointer) : Prop :=
  ∃ rest, pointer = base ++ rest ∧ pointer' = base' ++ rest

lemma moved_self (base base' : Pointer) : Moved base base' base base' :=
  ⟨"", String.append_empty.symm, String.append_empty.symm⟩

/-- Empty prefixes are out: what is put behind the empty pointer is put behind the root. -/
lemma goesOn_moved {base base' : Pointer} (hbase : base.isEmpty = false)
    (hbase' : base'.isEmpty = false) : GoesOn (Moved base base') := by
  have hjoin : ∀ {base : Pointer}, base.isEmpty = false → ∀ rest segments,
      join (base ++ rest) segments = base ++ (rest ++ placeOf segments) := by
    intro base hbase rest segments
    have hnonempty : (base ++ rest).isEmpty = false := by
      rw [String.isEmpty_eq_false_iff] at hbase ⊢
      simp [hbase]
    rw [join_eq_append hnonempty, String.append_assoc]
  rintro _ _ ⟨rest, rfl, rfl⟩ segments
  exact ⟨rest ++ placeOf segments, hjoin hbase .., hjoin hbase' ..⟩

end Pointer

/-- Findings that say the same, at related pointers. -/
structure Finding.Alike (R : Pointer → Pointer → Prop) (f f' : Finding) : Prop where
  rule : f'.rule = f.rule
  kind : f'.kind = f.kind
  message : f'.message = f.message
  pointer : R f.pointer f'.pointer

/-- The same fault, or the same defect of a graph at related pointers. -/
inductive Fault.Alike (R : Pointer → Pointer → Prop) : Fault → Fault → Prop
  | invalidGraph (defect : GraphDefect) {pointer pointer' : Pointer} (h : R pointer pointer') :
      Alike R (.invalidGraph ⟨defect, some pointer⟩) (.invalidGraph ⟨defect, some pointer'⟩)
  | other {fault : Fault} (h : ∀ e, fault ≠ .invalidGraph e) : Alike R fault fault

lemma Fault.Alike.number {R : Pointer → Pointer → Prop} (e : NumberError) :
    Fault.Alike R (.number e) (.number e) := by
  refine .other fun _ h => ?_
  cases h

lemma GraphDefect.faultAt_alike {R : Pointer → Pointer → Prop} (defect : GraphDefect)
    {pointer pointer' : Pointer} (h : R pointer pointer') :
    Fault.Alike R (defect.faultAt pointer) (defect.faultAt pointer') := by
  rw [faultAt, faultAt]
  split
  · exact .invalidGraph defect h
  · exact .number _

/-- Outcomes that are alike faults, or related values. -/
inductive OutcomesAlike (R : Pointer → Pointer → Prop) {α : Type} (A : α → α → Prop) :
    Except Fault α → Except Fault α → Prop
  | error {fault fault' : Fault} (h : Fault.Alike R fault fault') :
      OutcomesAlike R A (.error fault) (.error fault')
  | ok {a a' : α} (h : A a a') : OutcomesAlike R A (.ok a) (.ok a')

/-- Outcomes that are alike faults, or alike findings in the same order. -/
abbrev FoundAlike (R : Pointer → Pointer → Prop) :=
  OutcomesAlike R (List.Forall₂ (Finding.Alike R))

variable {R : Pointer → Pointer → Prop} {g : Graph} {base base' pointer pointer' : Pointer}

lemma FoundAlike.append {x x' y y' : Except Fault (List Finding)} (h : FoundAlike R x x')
    (h' : FoundAlike R y y') :
    FoundAlike R
      (do
        let here ← x
        let others ← y
        return here ++ others)
      (do
        let here ← x'
        let others ← y'
        return here ++ others) := by
  cases h with
  | error hfault => exact .error hfault
  | ok hfs =>
    cases h' with
    | error hfault => exact .error hfault
    | ok hgs => exact .ok (List.rel_append hfs hgs)

/-! ### Matching -/

namespace Matching

lemma mismatch_alike (h : R pointer pointer') :
    FoundAlike R (.ok [mismatch pointer]) (.ok [mismatch pointer']) :=
  .ok (.cons ⟨rfl, rfl, rfl, h⟩ .nil)

/-- A literal that is matched alike at related pointers. -/
def MatchesAlike (g : Graph) (R : Pointer → Pointer → Prop) (value : Literal) : Prop :=
  ∀ child pointer pointer', R pointer pointer' →
    FoundAlike R (mismatches g child pointer value) (mismatches g child pointer' value)

lemma itemMismatches_alike (hR : Pointer.GoesOn R) {items : List Literal}
    (h : ∀ item ∈ items, MatchesAlike g R item) (child : Child) (hpointer : R pointer pointer')
    (index : Nat) :
    FoundAlike R (itemMismatches g child pointer index items)
      (itemMismatches g child pointer' index items) := by
  induction items generalizing index with
  | nil =>
    rw [itemMismatches, itemMismatches]
    exact .ok .nil
  | cons item rest ih =>
    obtain ⟨hitem, hrest⟩ := List.forall_mem_cons.mp h
    rw [itemMismatches, itemMismatches]
    exact .append (hitem _ _ _ (hR hpointer _)) (ih hrest (index + 1))

lemma memberMismatches_alike (hR : Pointer.GoesOn R) {members : List (String × Literal)}
    (h : ∀ m ∈ members, MatchesAlike g R m.2) (node : Node) (hpointer : R pointer pointer') :
    FoundAlike R (memberMismatches g node pointer members)
      (memberMismatches g node pointer' members) := by
  induction members with
  | nil =>
    rw [memberMismatches, memberMismatches]
    exact .ok .nil
  | cons member rest ih =>
    obtain ⟨hmember, hrest⟩ := List.forall_mem_cons.mp h
    rw [memberMismatches, memberMismatches]
    split
    · exact .append (hmember _ _ _ (hR hpointer _)) (ih hrest)
    · exact .append (.ok .nil) (ih hrest)

lemma elementMismatches_alike (hR : Pointer.GoesOn R) {items : List Literal}
    (h : ∀ item ∈ items, MatchesAlike g R item) (node : Node) (hpointer : R pointer pointer') :
    FoundAlike R (elementMismatches g node pointer items)
      (elementMismatches g node pointer' items) := by
  rw [elementMismatches, elementMismatches]
  split
  · exact itemMismatches_alike hR h _ hpointer 0
  · exact .ok .nil

lemma underType_alike {parts parts' : Except Fault (List Finding)} (h : FoundAlike R parts parts')
    (node : Node) (type : String) (hpointer : R pointer pointer') :
    FoundAlike R (underType node type pointer parts) (underType node type pointer' parts') := by
  rw [underType, underType]
  split
  · exact .ok .nil
  · split
    · exact h
    · exact mismatch_alike hpointer

/-- What is no schema is the same fault wherever it is met. -/
lemma matchesAlike_of_resolve {value : Literal}
    (h : ∀ child place node, g.resolve child = .ok (place, node) → ∀ pointer pointer',
      R pointer pointer' →
        FoundAlike R (mismatches g child pointer value) (mismatches g child pointer' value)) :
    MatchesAlike g R value := by
  intro child pointer pointer' hpointer
  cases hresolve : g.resolve child with
  | error raw =>
    rw [mismatches_of_resolve_eq_error hresolve, mismatches_of_resolve_eq_error hresolve]
    exact .error (.other (by simp))
  | ok found => exact h child found.1 found.2 hresolve pointer pointer' hpointer

theorem matchesAlike (hR : Pointer.GoesOn R) (value : Literal) : MatchesAlike g R value := by
  induction value using Literal.nested_induction with
  | scalar kind payload =>
    apply matchesAlike_of_resolve
    intro child place node h pointer pointer' hpointer
    rw [mismatches_scalar h, mismatches_scalar h]
    split
    · exact .ok .nil
    · exact mismatch_alike hpointer
  | array items ih =>
    apply matchesAlike_of_resolve
    intro child place node h pointer pointer' hpointer
    rw [mismatches_array h, mismatches_array h]
    exact underType_alike (elementMismatches_alike hR ih node hpointer) node "array" hpointer
  | object members ih =>
    apply matchesAlike_of_resolve
    intro child place node h pointer pointer' hpointer
    rw [mismatches_object h, mismatches_object h]
    exact underType_alike (memberMismatches_alike hR ih node hpointer) node "object" hpointer
  | foreign raw =>
    apply matchesAlike_of_resolve
    intro child place node h pointer pointer' hpointer
    rw [mismatches_foreign h, mismatches_foreign h]
    split
    · exact .ok .nil
    · exact .error (.other (Fault.ofForeign_ne_invalidGraph raw))

/-- Where a literal is matched plays no part in whether it is a match: all pointers are alike, if
only their own relation is asked for. -/
lemma isMatch_iff_forall_mismatches {child : Child} {value : Literal} :
    isMatch g child value = .ok true ↔ ∀ pointer, mismatches g child pointer value = .ok [] := by
  rw [isMatch_eq_ok_true_iff]
  refine ⟨fun h pointer => ?_, fun h => h Pointer.root⟩
  have hall : Pointer.GoesOn fun _ _ => True := fun _ _ _ _ => trivial
  have halike := matchesAlike (g := g) hall value child Pointer.root pointer trivial
  rw [h] at halike
  generalize mismatches g child pointer value = outcome at halike ⊢
  cases halike with
  | ok hfs =>
    cases hfs
    rfl

end Matching

/-! ### Discriminators -/

namespace Discrimination

lemma memberFindings_alike (hpointer : R pointer pointer') (rule property : String) (index : Nat)
    (node : Node) :
    List.Forall₂ (Finding.Alike R) (memberFindings rule pointer property index node)
      (memberFindings rule pointer' property index node) := by
  refine List.rel_append ?_ ?_
  · split
    · exact .nil
    · exact .cons ⟨rfl, rfl, rfl, hpointer⟩ .nil
  · split
    · exact .nil
    · exact .cons ⟨rfl, rfl, rfl, hpointer⟩ .nil

lemma membersFindings_alike (hpointer : R pointer pointer') (rule property : String) (index : Nat)
    (children : List Child) :
    FoundAlike R (membersFindings g rule pointer property index children)
      (membersFindings g rule pointer' property index children) := by
  induction children generalizing index with
  | nil => exact .ok .nil
  | cons child rest ih =>
    rw [membersFindings, membersFindings]
    split
    · exact .error (.other (by simp))
    · exact .append (.ok (memberFindings_alike hpointer rule property index _)) (ih (index + 1))

lemma findings_alike (hR : Pointer.GoesOn R) (hpointer : R pointer pointer') (node : Node)
    (kind : CompositionKind) :
    FoundAlike R (findings g node kind pointer) (findings g node kind pointer') := by
  rw [findings, findings]
  split
  · exact .error (.other (by simp))
  · split
    · exact .ok .nil
    · exact membersFindings_alike (hR hpointer _) ..

end Discrimination

/-! ### Calls -/

namespace Walk

/-- Acts that come to the same with collectors of alike findings, and leave alike findings. -/
def ActsAlike (R : Pointer → Pointer → Prop) (act act' : Collecting Unit) : Prop :=
  ∀ c c' : Collector, List.Forall₂ (Finding.Alike R) c.findings c'.findings →
    OutcomesAlike R Eq (act.run c).1 (act'.run c').1
      ∧ List.Forall₂ (Finding.Alike R) (act.run c).2.findings (act'.run c').2.findings

namespace ActsAlike

variable {first first' second second' act act' : Collecting Unit}

lemma pure : ActsAlike R (Pure.pure ()) (Pure.pure ()) := fun _ _ hc => ⟨.ok rfl, hc⟩

lemma throw {fault fault' : Fault} (h : Fault.Alike R fault fault') :
    ActsAlike R (MonadExcept.throw fault) (MonadExcept.throw fault') :=
  fun _ _ hc => ⟨.error h, hc⟩

lemma bind (h : ActsAlike R first first') (h' : ActsAlike R second second') :
    ActsAlike R (do first; second) (do first'; second') := by
  intro c c' hc
  obtain ⟨houtcome, hleft⟩ := h c c' hc
  rw [run_bind_except, run_bind_except]
  rcases hrun : first.run c with ⟨outcome, d⟩
  rcases hrun' : first'.run c' with ⟨outcome', d'⟩
  rw [hrun, hrun'] at houtcome hleft
  cases houtcome with
  | error hfault => exact ⟨.error hfault, hleft⟩
  | ok _ => exact h' d d' hleft

lemma forM {α : Type} {act act' : α → Collecting Unit} {xs xs' : List α}
    (h : List.Forall₂ (fun x x' => ActsAlike R (act x) (act' x')) xs xs') :
    ActsAlike R (xs.forM act) (xs'.forM act') := by
  induction h with
  | nil => exact pure
  | cons hx _ ih => exact hx.bind ih

lemma forM_same {α : Type} {act act' : α → Collecting Unit} {xs : List α}
    (h : ∀ x ∈ xs, ActsAlike R (act x) (act' x)) : ActsAlike R (xs.forM act) (xs.forM act') :=
  forM (List.forall₂_same.mpr h)

lemma extendBy (examine : Pointer → Except Fault (List Finding))
    (h : FoundAlike R (examine pointer) (examine pointer')) :
    ActsAlike R ((Check.extendBy examine).collecting pointer)
      ((Check.extendBy examine).collecting pointer') := by
  intro c c' hc
  rw [Check.run_collecting_extendBy, Check.run_collecting_extendBy]
  generalize examine pointer = outcome at h ⊢
  generalize examine pointer' = outcome' at h ⊢
  cases h with
  | error hfault => exact ⟨.error hfault, hc⟩
  | ok hfs => exact ⟨.ok rfl, List.rel_append hc hfs⟩

/-- What alike acts come to from an empty collector. -/
lemma findingsOf (h : ActsAlike R act act') :
    FoundAlike R (Walk.findingsOf act) (Walk.findingsOf act') := by
  obtain ⟨houtcome, hleft⟩ := h {} {} .nil
  rw [Walk.findingsOf, Walk.findingsOf]
  rcases hrun : act.run {} with ⟨outcome, d⟩
  rcases hrun' : act'.run {} with ⟨outcome', d'⟩
  rw [hrun, hrun'] at houtcome hleft
  cases houtcome with
  | error hfault => exact .error hfault
  | ok _ => exact .ok hleft

end ActsAlike

variable {rule : Rule} {rules : RuleSet}

lemma onSchema_alike (hR : Pointer.GoesOn R) (hrule : rule ∈ Rule.builtin)
    (hpointer : R pointer pointer') (place : Nat) (node : Node) :
    ActsAlike R ((rule.onSchema g place node).collecting pointer)
      ((rule.onSchema g place node).collecting pointer') := by
  rcases Rule.mem_builtin_iff.mp hrule with rfl | rfl | rfl
  · exact .pure
  · exact .extendBy (Discrimination.findings g node .oneOf ·)
      (Discrimination.findings_alike hR hpointer node .oneOf)
  · exact .extendBy (Discrimination.findings g node .anyOf ·)
      (Discrimination.findings_alike hR hpointer node .anyOf)

lemma onLiteral_alike (hR : Pointer.GoesOn R) (hrule : rule ∈ Rule.builtin)
    (hpointer : R pointer pointer') (place : Nat) (node : Node) (value : Literal) :
    ActsAlike R ((rule.onLiteral g place node value).collecting pointer)
      ((rule.onLiteral g place node value).collecting pointer') := by
  rcases Rule.mem_builtin_iff.mp hrule with rfl | rfl | rfl
  · exact .extendBy (Matching.mismatches g (.node place) · value)
      (Matching.matchesAlike hR value _ _ _ hpointer)
  · exact .pure
  · exact .pure

/-! ### Stops -/

/-- Stops at the same node, at related pointers. -/
structure Stop.Alike (R : Pointer → Pointer → Prop) (stop stop' : Stop) : Prop where
  place : stop'.place = stop.place
  node : stop'.node = stop.node
  pointer : R stop.pointer stop'.pointer

variable {stop stop' : Stop}

lemma callsAt_alike (hR : Pointer.GoesOn R) (hrules : rules.rules ⊆ Rule.builtin)
    (h : stop.Alike R stop') : ActsAlike R (callsAt rules g stop) (callsAt rules g stop') := by
  have hbuiltin : ∀ kind, ∀ rule ∈ rules.rulesFor kind, rule ∈ Rule.builtin := fun kind rule hrule =>
    hrules (List.mem_of_mem_filter hrule)
  rw [callsAt, callsAt, h.place, h.node]
  apply ActsAlike.bind
  · apply ActsAlike.forM_same
    intro rule hrule
    exact onSchema_alike hR (hbuiltin _ rule hrule) h.pointer _ _
  · apply ActsAlike.forM_same
    rintro ⟨segments, value⟩ -
    apply ActsAlike.forM_same
    intro rule hrule
    exact onLiteral_alike hR (hbuiltin _ rule hrule) (hR h.pointer segments) _ _ _

lemma examineAt_alike (hR : Pointer.GoesOn R) (hrules : rules.rules ⊆ Rule.builtin)
    (h : stop.Alike R stop') : ActsAlike R (examineAt rules g stop) (examineAt rules g stop') := by
  rw [examineAt, examineAt, h.node]
  split
  · next defect _ => exact .throw (defect.faultAt_alike (hR h.pointer _))
  · exact callsAt_alike hR hrules h

/-! ### Visits -/

/-- Visits at two pointers and the same path that do to collectors what alike acts do. -/
def VisitsAlike (R : Pointer → Pointer → Prop) (pointer pointer' : Pointer) (path : List NodeKey)
    (act act' : Visit Unit) : Prop :=
  ∃ collect collect', act.Collects pointer path collect ∧ act'.Collects pointer' path collect'
    ∧ ActsAlike R collect collect'

namespace VisitsAlike

variable {path : List NodeKey} {act act' : Visit Unit}

lemma within {segments : List String}
    (h : VisitsAlike R (pointer.join segments) (pointer'.join segments) path act act') :
    VisitsAlike R pointer pointer' path (Visit.within segments act)
      (Visit.within segments act') := by
  obtain ⟨collect, collect', hact, hact', halike⟩ := h
  exact ⟨collect, collect', hact.within, hact'.within, halike⟩

lemma forM {α : Type} {xs : List α} {act act' : α → Visit Unit}
    (h : ∀ x ∈ xs, VisitsAlike R pointer pointer' path (act x) (act' x)) :
    VisitsAlike R pointer pointer' path (xs.forM act) (xs.forM act') := by
  induction xs with
  | nil => exact ⟨_, _, .pure, .pure, .pure⟩
  | cons x xs ih =>
    obtain ⟨hx, hxs⟩ := List.forall_mem_cons.mp h
    obtain ⟨collect, collect', hact, hact', halike⟩ := hx
    obtain ⟨others, others', hacts, hacts', hothers⟩ := ih hxs
    exact ⟨_, _, hact.bind hacts, hact'.bind hacts', halike.bind hothers⟩

end VisitsAlike

lemma comeBack_alike (node : Node) : ActsAlike R (comeBack node) (comeBack node) := by
  rw [comeBack]
  cases node.describe with
  | ok name => exact .pure
  | error e => exact .throw (.number e)

/-- However malformed the graph, visits with rules of the library at two pointers are alike. -/
lemma visitOr_alike (hR : Pointer.GoesOn R) (hrules : rules.rules ⊆ Rule.builtin) (stops : Bool)
    (depth : Nat) (path : List NodeKey) (child : Child) (hpointer : R pointer pointer') :
    VisitsAlike R pointer pointer' path
      (visitOr ⟨rules, base, stops⟩ g (fun _ => pure ()) depth child)
      (visitOr ⟨rules, base', stops⟩ g (fun _ => pure ()) depth child) := by
  induction depth generalizing pointer pointer' path child with
  | zero => exact ⟨_, _, .pure, .pure, .pure⟩
  | succ depth ih =>
    cases hresolve : g.resolve child with
    | error raw =>
      exact ⟨_, _, visitStep_collects_of_nonSchema hresolve,
        visitStep_collects_of_nonSchema hresolve, .throw (.invalidGraph _ hpointer)⟩
    | ok found =>
      obtain ⟨place, node⟩ := found
      by_cases hkey : Graph.keyOf place node ∈ path
      · exact ⟨_, _, visitStep_collects_of_mem hresolve hkey,
          visitStep_collects_of_mem hresolve hkey, comeBack_alike node⟩
      -- Whether a node is left out does not depend on the pointer.
      cases hcut : isCut ⟨rules, base, stops⟩ path node with
      | true =>
        exact ⟨_, _, visitStep_collects_of_isCut hresolve hkey hcut,
          visitStep_collects_of_isCut hresolve hkey hcut, .pure⟩
      | false =>
        have hlocal : ∀ rule ∈ rules.rules, rule.IsLocalOn g fun node => ¬IsMalformed g node :=
          fun rule hrule => (Rule.isLocal_of_mem_builtin (hrules hrule)).on _
        obtain ⟨collect, collect', hvisit, hvisit', hbelow⟩ :=
          VisitsAlike.forM fun (e : Edge × Child) (_ : e ∈ node.children) =>
            .within (ih (Graph.keyOf place node :: path) e.2 (hR hpointer e.1.segments))
        refine ⟨_, _, visitStep_collects hresolve hlocal hkey hcut fun _ => hvisit,
          visitStep_collects hresolve hlocal hkey hcut fun _ => hvisit', .bind ?_ hbelow⟩
        exact examineAt_alike hR hrules ⟨rfl, rfl, hpointer⟩

/-! ### Walks -/

/-- A walk comes to what it comes to at a related pointer. -/
theorem findings_walk_alike (hR : Pointer.GoesOn R) (hrules : rules.rules ⊆ Rule.builtin)
    (hbase : R base base') (stops : Bool) (root : Child) :
    FoundAlike R ((Walker.mk rules base stops).walk g root).findings
      ((Walker.mk rules base' stops).walk g root).findings := by
  have hvisits : VisitsAlike R base base' [] (visit ⟨rules, base, stops⟩ g (depthBound g) root)
      (visit ⟨rules, base', stops⟩ g (depthBound g) root) :=
    visitOr_alike hR hrules stops _ _ root hbase
  obtain ⟨collect, collect', hvisit, hvisit', halike⟩ := hvisits
  rw [findings_walk_of_collects hvisit, findings_walk_of_collects hvisit']
  exact halike.findingsOf

end Walk

/-- With rules of the library, in whatever order, walks of a graph below two pointers that are not
empty both fail or both find something. They fail in the same way, and if the graph cannot be
walked, with the same defect and the pointer of the first walk with the other prefix; what they find
is the same in the same order, but for that prefix. So it is with the mismatches of a literal, which
is a match if and only if it has none at any pointer. -/
theorem Walker.walk_moves_with_base {rules : RuleSet} (hrules : rules.rules ⊆ Rule.builtin)
    (hbase : base.isEmpty = false) (hbase' : base'.isEmpty = false) (stops : Bool) (g : Graph)
    (root : Child) :
    FoundAlike (Pointer.Moved base base') ((Walker.mk rules base stops).walk g root).findings
      ((Walker.mk rules base' stops).walk g root).findings
    ∧ ∀ value, FoundAlike (Pointer.Moved base base') (Matching.mismatches g root base value)
        (Matching.mismatches g root base' value)
      ∧ (Matching.isMatch g root value = .ok true
        ↔ ∀ pointer, Matching.mismatches g root pointer value = .ok []) := by
  have hmoved := Pointer.goesOn_moved hbase hbase'
  have hself := Pointer.moved_self base base'
  refine ⟨Walk.findings_walk_alike hmoved hrules hself stops root, fun value => ⟨?_, ?_⟩⟩
  · exact Matching.matchesAlike hmoved value root base base' hself
  · exact Matching.isMatch_iff_forall_mismatches

/-- Below another pointer, the walk of a torn graph fails at the same bad member, and a literal has
its mismatches in the same parts. -/
theorem Walker.walk_moves_with_base_torn :
    (RuleSet.builtin.rules ⊆ Rule.builtin ∧ "#".isEmpty = false ∧ "#/definitions/A".isEmpty = false)
    ∧ ((Walker.mk RuleSet.builtin "#" false).walk .torn (.node 0)).findings
      = .error (.invalidGraph ⟨.member "oneOf" 1, some "#/items/oneOf"⟩)
    ∧ FoundAlike (Pointer.Moved "#" "#/definitions/A")
      ((Walker.mk RuleSet.builtin "#" false).walk .torn (.node 0)).findings
      ((Walker.mk RuleSet.builtin "#/definitions/A" false).walk .torn (.node 0)).findings
    ∧ ∃ fs fs', Matching.mismatches .looped (.node 0) "#" .knotted = .ok fs
      ∧ Matching.mismatches .looped (.node 0) "#/definitions/A" .knotted = .ok fs'
      ∧ List.Forall₂ (Finding.Alike (Pointer.Moved "#" "#/definitions/A")) fs fs'
      ∧ fs.map Finding.pointer = ["#/a~1b/1", "#/a~1b/2", "#/b/a~1b"] := by
  have hrules : RuleSet.builtin.rules ⊆ Rule.builtin := List.Subset.refl _
  have hbase : "#".isEmpty = false := by decide
  have hbase' : "#/definitions/A".isEmpty = false := by decide
  have hwalk := (Walker.walk_moves_with_base hrules hbase hbase' false .torn (.node 0)).1
  have hmatch :=
    ((Walker.walk_moves_with_base hrules hbase hbase' false .looped (.node 0)).2 .knotted).1
  obtain ⟨fs, hfs⟩ : ∃ fs, Matching.mismatches .looped (.node 0) "#" .knotted = .ok fs := ⟨_, rfl⟩
  obtain ⟨fs', hfs'⟩ :
      ∃ fs', Matching.mismatches .looped (.node 0) "#/definitions/A" .knotted = .ok fs' := ⟨_, rfl⟩
  refine ⟨⟨hrules, hbase, hbase'⟩, rfl, hwalk, fs, fs', hfs, hfs', ?_, ?_⟩
  · rw [hfs, hfs'] at hmatch
    cases hmatch with
    | ok h => exact h
  · cases hfs
    decide +kernel

end ApiLint
