import ApiLint.Context
import ApiLint.Proofs.Raw.Places

/-!
# Runs of operations on a context

A context is entered and left, and findings are reported to it. In a run of such operations in which
nothing is left that was not entered, the segments that are still open tell where the context
stands, and the findings are those from before with the reported ones behind them. When all that was
entered is left again, the context differs from before by its findings alone.
-/

namespace ApiLint

/-- An operation on a context. -/
inductive ContextAct
  | enter (segments : List String)
  | leave
  | report (rule message : String) (pointer : Option Pointer) (kind : FindingKind)
  | extend (submissions : List Submission)

namespace ContextAct

/-- The segments that are open after an operation, those entered last in front. What was not entered
cannot be left. -/
def openAfter? : List (List String) → ContextAct → Option (List (List String))
  | opened, .enter segments => some (segments :: opened)
  | opened, .leave => opened.tail?
  | opened, .report .. | opened, .extend _ => some opened

/-- The segments that a run of operations enters and does not leave, if it is well nested. -/
def opened? (acts : List ContextAct) : Option (List (List String)) := acts.foldlM openAfter? []

/-- Whether a run of operations leaves all that it enters. -/
def IsBalanced (acts : List ContextAct) : Prop := opened? acts = some []

variable {opened opened' : List (List String)} {acts acts' : List ContextAct}

/-- What is open below is out of reach of an operation. -/
lemma openAfter?_append {act : ContextAct} (h : openAfter? opened act = some opened')
    (below : List (List String)) : openAfter? (opened ++ below) act = some (opened' ++ below) := by
  cases act with
  | enter segments =>
    cases h
    rfl
  | leave =>
    cases opened with
    | nil => cases h
    | cons segments opened =>
      cases h
      rfl
  | report => exact congrArg some (congrArg (· ++ below) (Option.some.inj h))
  | extend => exact congrArg some (congrArg (· ++ below) (Option.some.inj h))

/-- What is open below is out of reach of a run. -/
lemma foldlM_openAfter?_append (h : acts.foldlM openAfter? opened = some opened')
    (below : List (List String)) :
    acts.foldlM openAfter? (opened ++ below) = some (opened' ++ below) := by
  induction acts generalizing opened with
  | nil => exact congrArg some (congrArg (· ++ below) (Option.some.inj h))
  | cons act acts ih =>
    rw [List.foldlM_cons] at h ⊢
    obtain ⟨next, hnext, hrest⟩ := Option.bind_eq_some_iff.mp h
    rw [openAfter?_append hnext]
    exact ih hrest

lemma isBalanced_nil : IsBalanced [] := rfl

lemma isBalanced_report (rule message : String) (pointer : Option Pointer) (kind : FindingKind) :
    IsBalanced [.report rule message pointer kind] := rfl

lemma isBalanced_extend (submissions : List Submission) : IsBalanced [.extend submissions] := rfl

lemma IsBalanced.append (h : IsBalanced acts) (h' : IsBalanced acts') :
    IsBalanced (acts ++ acts') := by
  rw [IsBalanced, opened?] at h
  rw [IsBalanced, opened?, List.foldlM_append, h]
  exact h'

/-- A balanced run between entering and leaving. -/
lemma IsBalanced.within (h : IsBalanced acts) (segments : List String) :
    IsBalanced (.enter segments :: acts ++ [.leave]) := by
  have hinner : acts.foldlM openAfter? [segments] = some [segments] :=
    foldlM_openAfter?_append h [segments]
  rw [IsBalanced, opened?, List.cons_append, List.foldlM_cons, openAfter?]
  simp only [Option.bind_eq_bind, Option.bind_some, List.foldlM_append, hinner]
  rfl

end ContextAct

/-- The findings that are submitted before the first submission that is none. -/
def Submission.accepted : List Submission → List Finding
  | .finding f :: rest => f :: accepted rest
  | .foreign _ :: _ | [] => []

lemma Collector.findings_extend (collector : Collector) (submissions : List Submission) :
    (collector.extend submissions).1.findings
      = collector.findings ++ Submission.accepted submissions := by
  induction submissions generalizing collector with
  | nil => simp [extend, Submission.accepted]
  | cons submission rest ih =>
    cases submission with
    | finding f => simp [extend, add, Submission.accepted, ih]
    | foreign raw => simp [extend, add, Submission.accepted]

namespace Context

/-- The context after an operation. -/
def act (c : Context) : ContextAct → Context
  | .enter segments => c.enter segments
  | .leave => c.leave
  | .report rule message pointer kind => c.push (c.finding rule message pointer kind)
  | .extend submissions => { c with collector := (c.collector.extend submissions).1 }

/-- The context after a run of operations. -/
def perform (c : Context) (acts : List ContextAct) : Context := acts.foldl act c

/-- The findings that an operation reports. -/
def reportedBy (c : Context) : ContextAct → List Finding
  | .report rule message pointer kind => [c.finding rule message pointer kind]
  | .extend submissions => Submission.accepted submissions
  | .enter _ | .leave => []

/-- The findings that a run of operations reports, in order. -/
def reported (c : Context) : List ContextAct → List Finding
  | [] => []
  | first :: rest => c.reportedBy first ++ (c.act first).reported rest

variable {c : Context} {opened : List (List String)} {acts : List ContextAct}

@[simp] lemma perform_nil (c : Context) : c.perform [] = c := rfl

@[simp] lemma perform_cons (c : Context) (first : ContextAct) (rest : List ContextAct) :
    c.perform (first :: rest) = (c.act first).perform rest := rfl

@[simp] lemma perform_append (c : Context) (acts acts' : List ContextAct) :
    c.perform (acts ++ acts') = (c.perform acts).perform acts' :=
  List.foldl_append

/-! ### Findings -/

lemma findings_act (c : Context) (a : ContextAct) :
    (c.act a).collector.findings = c.collector.findings ++ c.reportedBy a := by
  cases a with
  | enter segments => exact (List.append_nil _).symm
  | leave => exact (List.append_nil _).symm
  | report rule message pointer kind => rfl
  | extend submissions => exact c.collector.findings_extend submissions

/-- A run takes no finding away and puts none before another. -/
lemma findings_perform (c : Context) (acts : List ContextAct) :
    (c.perform acts).collector.findings = c.collector.findings ++ c.reported acts := by
  induction acts generalizing c with
  | nil => exact (List.append_nil _).symm
  | cons first rest ih => rw [perform_cons, ih, findings_act, reported, List.append_assoc]

/-! ### Where a context stands -/

/-- The pointers that are entered for segments, one below the other from a pointer on. -/
def pointersBelow (base : Pointer) : List (List String) → List Pointer
  | [] => []
  | segments :: opened =>
    ((pointersBelow base opened).headD base).join segments :: pointersBelow base opened

/-- A context in which segments are open that were not in another one. -/
structure StandsBelow (c c' : Context) (opened : List (List String)) : Prop where
  base : c'.base = c.base
  entered : c'.entered = pointersBelow c.pointer opened ++ c.entered

lemma StandsBelow.refl (c : Context) : c.StandsBelow c [] := ⟨rfl, rfl⟩

lemma StandsBelow.pointer {c' : Context} (h : c.StandsBelow c' opened) :
    c'.pointer = (pointersBelow c.pointer opened).headD c.pointer := by
  rw [Context.pointer, h.entered, h.base]
  cases opened <;> rfl

/-- An operation opens segments and closes them, as it is told by the segments alone. -/
lemma StandsBelow.act {c' : Context} {a : ContextAct} {opened' : List (List String)}
    (h : c.StandsBelow c' opened) (hopened : ContextAct.openAfter? opened a = some opened') :
    c.StandsBelow (c'.act a) opened' := by
  cases a with
  | enter segments =>
    cases hopened
    refine ⟨h.base, ?_⟩
    change c'.pointer.join segments :: c'.entered = _
    rw [h.pointer, h.entered]
    rfl
  | leave =>
    cases opened with
    | nil => cases hopened
    | cons segments opened =>
      cases hopened
      refine ⟨h.base, ?_⟩
      change c'.entered.tail = _
      rw [h.entered]
      rfl
  | report rule message pointer kind =>
    cases hopened
    exact ⟨h.base, h.entered⟩
  | extend submissions =>
    cases hopened
    exact ⟨h.base, h.entered⟩

lemma StandsBelow.perform {c' : Context} {opened' : List (List String)}
    (h : c.StandsBelow c' opened)
    (hopened : acts.foldlM ContextAct.openAfter? opened = some opened') :
    c.StandsBelow (c'.perform acts) opened' := by
  induction acts generalizing c' opened with
  | nil =>
    cases hopened
    exact h
  | cons first rest ih =>
    rw [List.foldlM_cons] at hopened
    obtain ⟨next, hnext, hrest⟩ := Option.bind_eq_some_iff.mp hopened
    exact ih (h.act hnext) hrest

/-- A balanced run changes nothing but the findings. -/
lemma perform_of_isBalanced (h : ContextAct.IsBalanced acts) :
    (c.perform acts).base = c.base ∧ (c.perform acts).entered = c.entered := by
  have hbelow := (StandsBelow.refl c).perform h
  exact ⟨hbelow.base, hbelow.entered⟩

/-- The innermost of the pointers that are entered has all open segments behind the first pointer,
the outermost in front. -/
lemma headD_pointersBelow (base : Pointer) (segments : List String)
    (opened : List (List String)) :
    (pointersBelow base (segments :: opened)).headD base
      = base.join (segments :: opened).reverse.flatten := by
  induction opened generalizing segments with
  | nil => simp [pointersBelow]
  | cons above opened ih =>
    change ((pointersBelow base (above :: opened)).headD base).join segments = _
    rw [ih, Pointer.join_join]
    simp

/-- After a well-nested run a context stands where it stood with the open segments behind, each
behind a slash and with its escapes. The empty pointer is the root as soon as anything is open. -/
lemma pointer_perform (h : ContextAct.opened? acts = some opened) :
    (c.perform acts).pointer = (if opened.isEmpty then c.pointer else c.pointer.orRoot)
      ++ Pointer.placeOf opened.reverse.flatten := by
  rw [((StandsBelow.refl c).perform h).pointer]
  cases opened with
  | nil => exact (String.append_empty).symm
  | cons segments opened =>
    have hroot : c.pointer.orRoot.isEmpty = false := by
      simpa [Pointer.join] using Pointer.isEmpty_join c.pointer []
    rw [headD_pointersBelow]
    calc c.pointer.join (segments :: opened).reverse.flatten
        = c.pointer.orRoot.join (segments :: opened).reverse.flatten := by
          rw [Pointer.join, Pointer.join, Pointer.orRoot.eq_def c.pointer.orRoot, hroot]
          rfl
      _ = c.pointer.orRoot ++ Pointer.placeOf (segments :: opened).reverse.flatten :=
          Pointer.join_eq_append hroot _

end Context

end ApiLint
