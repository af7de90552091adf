import ApiLint.Proofs.Matching.Faults
import ApiLint.Proofs.Rule.Total
import ApiLint.Proofs.Walk.Rejection

/-!
# Which walks with the rules of the library fail

Before rules are called on a node, its children and its literals are looked at, but not what is
inside the literals or below the children. The search for discriminators needs no more. The matcher
does: it follows a literal to the schemas of its parts, and so a walk may fail with another fault
than that of a malformed graph.
-/

namespace ApiLint

open Walk

/-! ### Calls -/

namespace Walk

/-- What an act on a collector comes to. -/
abbrev outcomeOf (act : Collecting Unit) (c : Collector) : Except Fault Unit := (act.run c).1

variable {first second : Collecting Unit} {F G : Fault → Prop}

lemma succeeds_of_failsWith (h : FailsWith (outcomeOf first) F) (hF : ∀ fault, ¬F fault) :
    Succeeds first := by
  rcases h with ⟨fault, hfault, -⟩ | ⟨-, hfirst⟩
  · exact absurd hfault (hF fault)
  · intro c
    obtain ⟨_, hc⟩ := hfirst c
    exact ⟨(first.run c).2, Prod.ext hc rfl⟩

lemma bind_failsWith (h : FailsWith (outcomeOf first) F) (h' : FailsWith (outcomeOf second) G) :
    FailsWith (outcomeOf (do first; second)) fun fault => F fault ∨ G fault := by
  apply h.andThen h'
  · intro c fault hfirst
    rw [outcomeOf, run_bind_except]
    rcases hrun : first.run c with ⟨_ | _, c'⟩ <;> simp_all [outcomeOf]
  · intro c _ hfirst
    refine ⟨(first.run c).2, id, ?_⟩
    rw [outcomeOf, run_bind_except]
    rcases hrun : first.run c with ⟨_ | _, c'⟩ <;> simp_all [outcomeOf]

lemma forM_failsWith {α : Type} {xs : List α} {act : α → Collecting Unit}
    {faults : α → Fault → Prop} (h : ∀ x ∈ xs, FailsWith (outcomeOf (act x)) (faults x)) :
    FailsWith (outcomeOf (xs.forM act)) fun fault => ∃ x ∈ xs, faults x fault := by
  induction xs with
  | nil => exact .never (fun _ => ⟨(), rfl⟩) (by simp)
  | cons x xs ih =>
    obtain ⟨hx, hxs⟩ := List.forall_mem_cons.mp h
    simp only [List.exists_mem_cons_iff]
    exact bind_failsWith hx (ih hxs)

end Walk

namespace Check

/-- Reporting what an examination finds fails as the examination does, and touches nothing but the
collector. -/
lemma run_extendBy_eq (examine : Pointer → Except Fault (List Finding)) (c : Context) :
    (extendBy examine).run c = match examine c.pointer with
      | .ok fs => (.ok (), c.append fs)
      | .error fault => (.error fault, c) := by
  cases h : examine c.pointer with
  | ok fs => exact run_extendBy h
  | error fault =>
    rw [extendBy, run_get_bind, h]
    rfl

lemma run_collecting_extendBy (examine : Pointer → Except Fault (List Finding)) (pointer : Pointer)
    (c : Collector) :
    ((extendBy examine).collecting pointer).run c = match examine pointer with
      | .ok fs => (.ok (), (Context.append ⟨pointer, [], c⟩ fs).collector)
      | .error fault => (.error fault, c) := by
  have hpointer : Context.pointer ⟨pointer, [], c⟩ = pointer := rfl
  have hrun : ((extendBy examine).collecting pointer).run c
      = (((extendBy examine).run ⟨pointer, [], c⟩).1,
        ((extendBy examine).run ⟨pointer, [], c⟩).2.collector) := rfl
  rw [hrun, run_extendBy_eq, hpointer]
  cases examine pointer <;> rfl

lemma isLocal_extendBy (examine : Pointer → Except Fault (List Finding)) :
    (extendBy examine).IsLocal := by
  intro c
  rw [run_extendBy_eq, run_collecting_extendBy]
  cases examine c.pointer <;> rfl

lemma extendBy_failsWith {examine : Pointer → Except Fault (List Finding)} {F : Fault → Prop}
    (h : FailsWith examine F) (pointer : Pointer) :
    FailsWith (outcomeOf ((extendBy examine).collecting pointer)) F := by
  refine h.map fun c => ⟨pointer, fun _ => (), ?_⟩
  rw [outcomeOf, run_collecting_extendBy]
  cases examine pointer <;> rfl

end Check

/-! ### The rules of the library -/

variable {g : Graph}

/-- On whatever graph, the rules of the library deal with a context through its pointer and its
collector alone. -/
lemma Rule.isLocal_of_mem_builtin {rule : Rule} (h : rule ∈ Rule.builtin) : rule.IsLocal g := by
  have hpure : (pure () : Check Unit).IsLocal := fun _ => rfl
  have hdiscriminated : ∀ name kind, (Rule.discriminated name kind).IsLocal g := fun name kind =>
    ⟨fun _ _ _ => Check.isLocal_extendBy fun pointer => Discrimination.findings g _ kind pointer,
      fun _ _ _ _ _ _ => hpure⟩
  rcases Rule.mem_builtin_iff.mp h with rfl | rfl | rfl
  · exact ⟨fun _ _ _ => hpure, fun place _ _ value _ _ =>
      Check.isLocal_extendBy fun pointer => Matching.mismatches g (.node place) pointer value⟩
  · exact hdiscriminated _ _
  · exact hdiscriminated _ _

namespace Walk

variable {rules : RuleSet} {stop : Stop}

/-- On a node that is not malformed, the search for discriminators does not fail. -/
lemma onSchema_failsWith {rule : Rule} (hrule : rule ∈ Rule.builtin)
    (hgood : ¬IsMalformed g stop.node) (pointer : Pointer) :
    FailsWith (outcomeOf ((rule.onSchema g stop.place stop.node).collecting pointer))
      fun _ => False := by
  have hdiscriminated : ∀ kind own, Discrimination.ruleName? kind = some own →
      FailsWith (outcomeOf
        (((Rule.discriminated own kind).onSchema g stop.place stop.node).collecting pointer))
        fun _ => False := by
    intro kind own hown
    have hexamine : FailsWith (Discrimination.findings g stop.node kind ·) fun _ => False := by
      refine .never (fun p => ?_) fun _ => not_false
      obtain ⟨fs, hfs, -⟩ :=
        Discrimination.exists_findings (fun e he => exists_of_mem_children hgood he) hown p
      exact ⟨fs, hfs⟩
    exact Check.extendBy_failsWith hexamine pointer
  rcases Rule.mem_builtin_iff.mp hrule with rfl | rfl | rfl
  · exact .never (fun _ => ⟨(), rfl⟩) fun _ => not_false
  · exact hdiscriminated .oneOf _ rfl
  · exact hdiscriminated .anyOf _ rfl

/-- The matcher is the only rule of the library that is called on literals. -/
lemma mem_rulesFor_literal_iff (hrules : rules.rules ⊆ Rule.builtin) {rule : Rule} :
    rule ∈ rules.rulesFor .literal ↔ rule = Rule.typeMismatch ∧ Rule.typeMismatch ∈ rules.rules := by
  constructor
  · intro hrule
    obtain ⟨hmem, hkind⟩ := List.mem_filter.mp hrule
    rcases Rule.mem_builtin_iff.mp (hrules hmem) with rfl | rfl | rfl
    · exact ⟨rfl, hmem⟩
    · cases hkind
    · cases hkind
  · rintro ⟨rfl, hmem⟩
    exact List.mem_filter.mpr ⟨hmem, rfl⟩

/-- The literals of a stop meet a fault, and the matcher is one of the rules that look at them. -/
def Escapes (rules : RuleSet) (g : Graph) (stop : Stop) (fault : Fault) : Prop :=
  Rule.typeMismatch ∈ rules.rules
    ∧ ∃ l ∈ stop.node.literals, Matching.Meets g (.node stop.place) l.2 fault

/-- What the calls of rules of the library at a node that is not malformed fail with. -/
lemma callsAt_failsWith (hrules : rules.rules ⊆ Rule.builtin) (hgood : ¬IsMalformed g stop.node) :
    FailsWith (outcomeOf (callsAt rules g stop)) (Escapes rules g stop) := by
  -- The rules of schemas never fail, and among the rules of literals is the matcher alone.
  have hschema : FailsWith (outcomeOf ((rules.rulesFor .schema).forM fun rule =>
      (rule.onSchema g stop.place stop.node).collecting stop.pointer))
      fun _ => ∃ rule ∈ rules.rulesFor .schema, False := by
    apply forM_failsWith
    intro rule hrule
    exact onSchema_failsWith (hrules (List.mem_of_mem_filter hrule)) hgood _
  have hliteral : FailsWith (outcomeOf (stop.node.literals.forM fun l =>
      (rules.rulesFor .literal).forM fun rule =>
        (rule.onLiteral g stop.place stop.node l.2).collecting (stop.pointer.join l.1)))
      fun fault => ∃ l ∈ stop.node.literals, ∃ rule ∈ rules.rulesFor .literal,
        Matching.Meets g (.node stop.place) l.2 fault := by
    apply forM_failsWith
    rintro ⟨segments, value⟩ -
    apply forM_failsWith
    intro rule hrule
    obtain ⟨rfl, -⟩ := (mem_rulesFor_literal_iff hrules).mp hrule
    exact Check.extendBy_failsWith (Matching.mismatches_failsWith value (.node stop.place)) _
  refine (bind_failsWith hschema hliteral).congr fun fault => ?_
  simp only [mem_rulesFor_literal_iff hrules, Escapes]
  constructor
  · rintro (⟨_, _, ⟨⟩⟩ | ⟨l, hl, _, ⟨rfl, hmem⟩, hmeets⟩)
    exact ⟨hmem, l, hl, hmeets⟩
  · rintro ⟨hmem, l, hl, hmeets⟩
    exact .inr ⟨l, hl, _, ⟨rfl, hmem⟩, hmeets⟩

/-! ### Walks -/

variable {walker : Walker} {root : Child}

/-- What the examination of a stop fails with. -/
lemma examineAt_failsWith (hrules : rules.rules ⊆ Rule.builtin) (stop : Stop) :
    FailsWith (outcomeOf (examineAt rules g stop)) fun fault =>
      (∃ segments defect, (defects g stop.node).head? = some (segments, defect)
          ∧ fault = defect.faultAt (stop.pointer.join segments))
        ∨ ¬IsMalformed g stop.node ∧ Escapes rules g stop fault := by
  by_cases hbad : IsMalformed g stop.node
  · obtain ⟨segments, defect, -, hhead, hthrow⟩ := exists_examineAt_eq_throw hbad rules
    rw [hthrow]
    refine .always (fun _ => rfl) (.inl ⟨segments, defect, hhead, rfl⟩)
  · rw [examineAt_of_not_isMalformed hbad]
    refine (callsAt_failsWith hrules hbad).congr fun fault => ?_
    simp [hbad, defects_eq_nil_iff.mpr hbad]

/-- Of acts in a row, the first one that fails decides what they fail with. -/
lemma findingsOf_forM {α : Type} {xs : List α} {act : α → Collecting Unit}
    {faults : α → Fault → Prop} (h : ∀ x ∈ xs, FailsWith (outcomeOf (act x)) (faults x)) :
    ((∀ x ∈ xs, ∀ fault, ¬faults x fault)
        ∧ ∃ findings, findingsOf (xs.forM act) = .ok findings)
      ∨ ∃ before x after fault, xs = before ++ x :: after
        ∧ (∀ y ∈ before, ∀ fault, ¬faults y fault) ∧ faults x fault
        ∧ findingsOf (xs.forM act) = .error fault := by
  by_cases hex : ∃ x ∈ xs, ∃ fault, faults x fault
  · obtain ⟨before, x, after, rfl, ⟨_, hx⟩, hbefore⟩ := exists_first _ hex
    obtain ⟨fault, hfault, hfails⟩ | ⟨hnone, -⟩ := h x (by simp)
    · have hnone : ∀ y ∈ before, ∀ fault, ¬faults y fault := fun y hy =>
        not_exists.mp (hbefore y hy)
      have hsucceeds : Succeeds (before.forM act) := .forM fun y hy =>
        succeeds_of_failsWith (h y (by simp [hy])) (hnone y hy)
      refine .inr ⟨before, x, after, fault, rfl, hnone, hfault, ?_⟩
      obtain ⟨c, hrun⟩ := hsucceeds {}
      obtain ⟨c', hrun'⟩ : ∃ c', (act x).run c = (.error fault, c') :=
        ⟨_, Prod.ext (hfails c) rfl⟩
      simp only [List.forM_eq_forM] at hrun ⊢
      rw [findingsOf, List.forM_append, List.forM_cons, run_bind_except, hrun]
      dsimp only
      rw [run_bind_except, hrun']
    · exact absurd hx (hnone _)
  · have hnone : ∀ x ∈ xs, ∀ fault, ¬faults x fault := fun x hx fault hfault =>
      hex ⟨x, hx, fault, hfault⟩
    refine .inl ⟨hnone, Succeeds.exists_findings (.forM fun x hx => ?_)⟩
    exact succeeds_of_failsWith (h x hx) (hnone x hx)

end Walk

/-- How a walk fails with another fault than that of a malformed graph: the matcher is one of its
rules, the walk takes a path to a node with a literal that meets the fault, and neither there nor at
the ends of the smaller paths that it takes is a node malformed. -/
structure Walk.EscapesAt (walker : Walker) (g : Graph) (root : Child) (path : List Nat)
    (stop : Stop) (fault : Fault) : Prop where
  taken : IsTaken walker g root path
  arrival : arrival? g walker.base root path = some stop
  good : ∀ path' stop', path' ≤ path → IsTaken walker g root path' →
    arrival? g walker.base root path' = some stop' → ¬IsMalformed g stop'.node
  escapes : Escapes walker.rules g stop fault

/-- How a walk fails at a malformed graph without saying so: it takes a path to a node whose first
defect is a raw value in the place of a literal, the value has no text to be shown, and at the ends
of the smaller paths that the walk takes no node is malformed. -/
structure Walk.UnshownAt (walker : Walker) (g : Graph) (root : Child) (path : List Nat)
    (stop : Stop) (raw : Raw) : Prop where
  taken : IsTaken walker g root path
  arrival : arrival? g walker.base root path = some stop
  good : ∀ path' stop', path' < path → IsTaken walker g root path' →
    arrival? g walker.base root path' = some stop' → ¬IsMalformed g stop'.node
  first : ∃ segments, (defects g stop.node).head? = some (segments, .literal raw)
  unwritable : raw.isWritable = false

namespace Walk

variable {walker : Walker} {root : Child} {path : List Nat} {stop : Stop} {fault : Fault}

lemma UnshownAt.mem_stopsOf {raw : Raw} (h : UnshownAt walker g root path stop raw) :
    (path, stop) ∈ stopsOf walker g root :=
  Walk.mem_stopsOf.mpr ⟨h.taken, h.arrival⟩

lemma isMalformed_of_head? {node : Node} {found : List String × GraphDefect}
    (h : (defects g node).head? = some found) : IsMalformed g node := by
  by_contra hgood
  simp [defects_eq_nil_iff.mpr hgood] at h

/-- What a literal meets is no malformed graph. -/
lemma ne_invalidGraph_of_meets {child : Child} {value : Literal}
    (h : Matching.Meets g child value fault) (e : InvalidGraph) : fault ≠ .invalidGraph e := by
  induction h with
  | schema _ => simp
  | literal => exact Fault.ofForeign_ne_invalidGraph _ e
  | item _ _ _ _ _ ih => exact ih
  | member _ _ _ _ _ ih => exact ih

lemma EscapesAt.ne_invalidGraph (h : EscapesAt walker g root path stop fault) (e : InvalidGraph) :
    fault ≠ .invalidGraph e := by
  obtain ⟨-, l, -, hmeets⟩ := h.escapes
  exact ne_invalidGraph_of_meets hmeets e

lemma EscapesAt.mem_stopsOf (h : EscapesAt walker g root path stop fault) :
    (path, stop) ∈ stopsOf walker g root :=
  Walk.mem_stopsOf.mpr ⟨h.taken, h.arrival⟩

/-- If the first stop that is malformed or lets a fault escape is not malformed, it lets it escape
in this way. -/
lemma escapesAt_of_stopsOf_eq {before after : List (List Nat × Stop)} {e : List Nat × Stop}
    (h : stopsOf walker g root = before ++ e :: after)
    (hbefore : ∀ e ∈ before, ¬IsMalformed g e.2.node) (hgood : ¬IsMalformed g e.2.node)
    (hescapes : Escapes walker.rules g e.2 fault) : EscapesAt walker g root e.1 e.2 fault := by
  obtain ⟨htaken, harrival⟩ :=
    Walk.mem_stopsOf.mp (h ▸ List.mem_append_right _ (List.mem_cons_self ..))
  refine ⟨htaken, harrival, fun path' stop' hle htaken' harrival' => ?_, hescapes⟩
  rcases hle.lt_or_eq with hlt | rfl
  · exact hbefore (path', stop') ((mem_of_stopsOf_eq h).mpr ⟨htaken', hlt, harrival'⟩)
  · rw [harrival] at harrival'
    cases harrival'
    exact hgood

/-- If the first stop that is malformed or lets a fault escape is malformed, none escapes. -/
lemma not_escapesAt_of_stopsOf_eq {before after : List (List Nat × Stop)} {e : List Nat × Stop}
    (h : stopsOf walker g root = before ++ e :: after)
    (hbefore : ∀ e ∈ before, ∀ fault, ¬Escapes walker.rules g e.2 fault)
    (hbad : IsMalformed g e.2.node) : ¬EscapesAt walker g root path stop fault := by
  intro hescapes
  obtain ⟨htaken, harrival⟩ :=
    Walk.mem_stopsOf.mp (h ▸ List.mem_append_right _ (List.mem_cons_self ..))
  rcases le_or_gt e.1 path with hle | hlt
  · exact hescapes.good e.1 e.2 hle htaken harrival hbad
  · exact hbefore (path, stop) ((mem_of_stopsOf_eq h).mpr ⟨hescapes.taken, hlt, hescapes.arrival⟩)
      fault hescapes.escapes

section FirstMalformed

variable {before after : List (List Nat × Stop)} {e : List Nat × Stop} {raw : Raw}
  (hstops : stopsOf walker g root = before ++ e :: after)
  (hbefore : ∀ e ∈ before, ¬IsMalformed g e.2.node)
include hstops hbefore

/-- The first malformed stop is left unshown if its first defect cannot be shown. -/
lemma unshownAt_of_stopsOf_eq {segments : List String}
    (hhead : (defects g e.2.node).head? = some (segments, .literal raw))
    (hraw : raw.isWritable = false) : UnshownAt walker g root e.1 e.2 raw := by
  obtain ⟨htaken, harrival⟩ :=
    Walk.mem_stopsOf.mp (hstops ▸ List.mem_append_right _ (List.mem_cons_self ..))
  refine ⟨htaken, harrival, fun path' stop' hlt htaken' harrival' => ?_, ⟨_, hhead⟩, hraw⟩
  exact hbefore (path', stop') ((mem_of_stopsOf_eq hstops).mpr ⟨htaken', hlt, harrival'⟩)

/-- What a walk leaves unshown is at its first malformed stop. -/
lemma UnshownAt.eq_of_stopsOf_eq (h : UnshownAt walker g root path stop raw)
    (hbad : IsMalformed g e.2.node) : e = (path, stop) := by
  obtain ⟨htaken, harrival⟩ :=
    Walk.mem_stopsOf.mp (hstops ▸ List.mem_append_right _ (List.mem_cons_self ..))
  obtain ⟨_, hhead⟩ := h.first
  rcases lt_trichotomy e.1 path with hlt | heq | hlt
  · exact absurd hbad (h.good e.1 e.2 hlt htaken harrival)
  · rw [heq, h.arrival] at harrival
    exact Prod.ext heq (Option.some.inj harrival).symm
  · exact absurd (isMalformed_of_head? hhead)
      (hbefore (path, stop) ((mem_of_stopsOf_eq hstops).mpr ⟨h.taken, hlt, h.arrival⟩))

/-- At the first malformed stop a walk is rejected, or its first defect cannot be shown. -/
lemma rejected_or_unshown {segments : List String} {defect : GraphDefect}
    (hhead : (defects g e.2.node).head? = some (segments, defect))
    (hfails : (walker.walk g root).findings
      = .error (defect.faultAt (e.2.pointer.join segments))) :
    ((∀ path stop raw, ¬UnshownAt walker g root path stop raw)
        ∧ ∃ defect pointer,
          (walker.walk g root).findings = .error (.invalidGraph ⟨defect, some pointer⟩))
      ∨ (∃ path stop raw, UnshownAt walker g root path stop raw)
        ∧ (walker.walk g root).findings = .error (.number .tooLongToWrite) := by
  rcases defect.faultAt_cases (e.2.pointer.join segments) with
    ⟨hfault, hwritable⟩ | ⟨raw, rfl, hraw, hfault⟩
  · refine .inl ⟨fun path stop raw h => ?_, _, _, hfault ▸ hfails⟩
    cases h.eq_of_stopsOf_eq hstops hbefore (isMalformed_of_head? hhead)
    obtain ⟨_, hfirst⟩ := h.first
    rw [hhead] at hfirst
    cases hfirst
    exact absurd (hwritable raw rfl) (by simp [h.unwritable])
  · have hunshown := unshownAt_of_stopsOf_eq hstops hbefore hhead hraw
    exact .inr ⟨⟨_, _, _, hunshown⟩, hfault ▸ hfails⟩

end FirstMalformed

/-- What a walk comes to: it returns or is rejected with a pointer, or what keeps it from that
cannot be shown, and in neither case anything escapes; or it fails with a fault that escapes. -/
lemma builtin_walk_cases (hnamed : g.IsDescribed) (hrules : walker.rules.rules ⊆ Rule.builtin)
    (root : Child) :
    ((∀ path stop fault, ¬EscapesAt walker g root path stop fault)
      ∧ ((∀ path stop raw, ¬UnshownAt walker g root path stop raw)
          ∧ ((∃ findings, (walker.walk g root).findings = .ok findings)
            ∨ ∃ defect pointer,
              (walker.walk g root).findings = .error (.invalidGraph ⟨defect, some pointer⟩))
        ∨ (∃ path stop raw, UnshownAt walker g root path stop raw)
          ∧ (walker.walk g root).findings = .error (.number .tooLongToWrite)))
      ∨ ∃ path stop fault, EscapesAt walker g root path stop fault
        ∧ (walker.walk g root).findings = .error fault := by
  cases hroot : g.resolve root with
  | error raw =>
    have hstops : stopsOf walker g root = [] := by
      simp [stopsOf, depthBound, listing, Stop.at?, hroot]
    refine .inl ⟨fun path stop fault h => ?_, .inl ⟨fun path stop raw h => ?_, .inr ?_⟩⟩
    · exact List.not_mem_nil (hstops ▸ h.mem_stopsOf)
    · exact List.not_mem_nil (hstops ▸ h.mem_stopsOf)
    · rw [findings_walk_of_collects (visit_collects_of_nonSchema hroot)]
      exact ⟨_, _, rfl⟩
  | ok found =>
    have hlocal : ∀ rule ∈ walker.rules.rules, rule.IsLocalOn g fun node => ¬IsMalformed g node :=
      fun rule hrule => (Rule.isLocal_of_mem_builtin (hrules hrule)).on _
    have hcases := findingsOf_forM fun e (_ : e ∈ stopsOf walker g root) =>
      examineAt_failsWith (g := g) hrules e.2
    rw [← findings_walk_of_collects
      (visit_examines hlocal ⟨found, hroot⟩ (hnamed.namesRepeats [] root))] at hcases
    rcases hcases with
      ⟨hnone, hfindings⟩ | ⟨before, e, after, fault, hstops, hbefore, hfault, hfails⟩
    · refine .inl ⟨fun path stop fault h => ?_, .inl ⟨fun path stop raw h => ?_, .inl hfindings⟩⟩
      · have hgood := h.good path stop le_rfl h.taken h.arrival
        exact hnone _ h.mem_stopsOf fault (.inr ⟨hgood, h.escapes⟩)
      · obtain ⟨segments, hhead⟩ := h.first
        exact hnone _ h.mem_stopsOf _ (.inl ⟨segments, _, hhead, rfl⟩)
    · have hgood : ∀ e ∈ before, ¬IsMalformed g e.2.node := by
        intro e he hbad
        obtain ⟨segments, defect, -, hhead, -⟩ := exists_examineAt_eq_throw hbad walker.rules
        exact hbefore e he _ (.inl ⟨segments, defect, hhead, rfl⟩)
      rcases hfault with ⟨segments, defect, hhead, rfl⟩ | ⟨hgood', hescapes⟩
      · refine .inl ⟨fun path stop fault => ?_, ?_⟩
        · have hbad := isMalformed_of_head? hhead
          refine not_escapesAt_of_stopsOf_eq hstops (fun e he fault hescapes => ?_) hbad
          exact hbefore e he fault (.inr ⟨hgood e he, hescapes⟩)
        · rcases rejected_or_unshown hstops hgood hhead hfails with
            ⟨hshown, hrejected⟩ | hunshown
          · exact .inl ⟨hshown, .inr hrejected⟩
          · exact .inr hunshown
      · exact .inr ⟨e.1, e.2, fault, escapesAt_of_stopsOf_eq hstops hgood hgood' hescapes, hfails⟩

end Walk

/-- A walk of a graph whose nodes can be named with rules of the library, in whatever order, returns
or is rejected with a pointer, unless the matcher is one of the rules and follows a literal to a raw
value that stands for a schema below a child of the node or for a value inside the literal, or else
the first defect is a raw value that cannot be shown. If the walk comes to such a literal before it
is rejected, it always fails with another fault; and if nothing escapes in this way, but the first
defect cannot be shown, it fails for that. -/
theorem Walker.builtin_walk_failures {walker : Walker} {g : Graph} (hnamed : g.IsDescribed)
    (hrules : walker.rules.rules ⊆ Rule.builtin) (root : Child) :
    ((∀ path stop fault, ¬EscapesAt walker g root path stop fault) →
      (∀ path stop raw, ¬UnshownAt walker g root path stop raw) →
      (∃ findings, (walker.walk g root).findings = .ok findings)
        ∨ ∃ defect pointer,
          (walker.walk g root).findings = .error (.invalidGraph ⟨defect, some pointer⟩))
    ∧ ((∃ path stop fault, EscapesAt walker g root path stop fault) →
      ∃ path stop fault, EscapesAt walker g root path stop fault
        ∧ (walker.walk g root).findings = .error fault ∧ ∀ e, fault ≠ .invalidGraph e)
    ∧ ((∀ path stop fault, ¬EscapesAt walker g root path stop fault) →
      (∃ path stop raw, UnshownAt walker g root path stop raw) →
      (walker.walk g root).findings = .error (.number .tooLongToWrite)) := by
  rcases builtin_walk_cases hnamed hrules root with
    ⟨hnone, ⟨hshown, hcomes⟩ | ⟨⟨path, stop, raw, hunshown⟩, hfails⟩⟩
    | ⟨path, stop, fault, hescapes, hfails⟩
  · refine ⟨fun _ _ => hcomes, fun ⟨path, stop, fault, h⟩ => absurd h (hnone path stop fault),
      fun _ ⟨path, stop, raw, h⟩ => absurd h (hshown path stop raw)⟩
  · exact ⟨fun _ hshown => absurd hunshown (hshown path stop raw),
      fun ⟨path, stop, fault, h⟩ => absurd h (hnone path stop fault), fun _ _ => hfails⟩
  · refine ⟨fun hnone _ => absurd hescapes (hnone path stop fault), fun _ => ?_,
      fun hnone _ => absurd hescapes (hnone path stop fault)⟩
    exact ⟨path, stop, fault, hescapes, hfails, hescapes.ne_invalidGraph⟩

/-- Two nodes, of which the second one is malformed; the default of the first one has an element of
an element, for which the second one has no schema. -/
def Graph.buried : Graph :=
  ⟨#[{ SchemaNode.blank with
        type := .str "array", items := some (.node 1),
        defaultValue := some (.array [.array [.scalar .integer (.int 1)]]) },
      { SchemaNode.blank with type := .str "array", items := some (.other (.int 5)) }]⟩

lemma Walk.escapesAt_buried : EscapesAt ⟨RuleSet.builtin, "#", false⟩ .buried (.node 0) []
    ⟨"#", 0, Graph.buried.nodes[0]⟩ (.notASchema "int" "type") where
  taken := ⟨_, rfl, by decide, by simp⟩
  arrival := rfl
  good := by
    intro path' stop' hle _ harrival
    obtain rfl : path' = [] := hle.lt_or_eq.resolve_left (List.not_lt_nil path')
    cases harrival
    decide
  escapes := by
    refine ⟨List.mem_cons_self .., _, List.mem_cons_self .., ?_⟩
    refine .item rfl rfl rfl (List.mem_singleton_self _) ?_
    refine .item rfl rfl rfl (List.mem_singleton_self _) ?_
    have hresolve : Graph.buried.resolve (.other (.int 5)) = .error (.int 5) := rfl
    exact .schema hresolve

theorem Walker.builtin_walk_failures_buried : Graph.buried.IsDescribed
    ∧ ∃ path stop fault, EscapesAt ⟨RuleSet.builtin, "#", false⟩ .buried (.node 0) path stop fault
      ∧ ((Walker.mk RuleSet.builtin "#" false).walk .buried (.node 0)).findings = .error fault
      ∧ ∀ e, fault ≠ .invalidGraph e := by
  have hnamed : Graph.buried.IsDescribed := by decide
  have hrules : (Walker.mk RuleSet.builtin "#" false).rules.rules ⊆ Rule.builtin :=
    List.Subset.refl _
  obtain ⟨-, hfails, -⟩ := Walker.builtin_walk_failures hnamed hrules (.node 0)
  exact ⟨hnamed, hfails ⟨_, _, _, Walk.escapesAt_buried⟩⟩

/-- The matcher asks a raw value for its type before the walk comes to the node that has it as its
items. -/
theorem Walker.not_all_builtin_walk_failures_are_rejections :
    ¬∀ (walker : Walker) (g : Graph) (root : Child), g.IsDescribed →
      walker.rules.rules ⊆ Rule.builtin →
      (∃ findings, (walker.walk g root).findings = .ok findings)
        ∨ ∃ defect pointer,
          (walker.walk g root).findings = .error (.invalidGraph ⟨defect, some pointer⟩) := by
  intro h
  have hfails : ((Walker.mk RuleSet.builtin "#" false).walk .buried (.node 0)).findings
      = .error (.notASchema "int" "type") := rfl
  rcases h ⟨RuleSet.builtin, "#", false⟩ .buried (.node 0) (by decide) (List.Subset.refl _) with
    ⟨_, hok⟩ | ⟨_, _, hrejected⟩
  · rw [hfails] at hok
    cases hok
  · rw [hfails] at hrejected
    cases hrejected

end ApiLint
