import ApiLint.Proofs.Document.Reading
import ApiLint.Proofs.Walk.Rules

/-!
# Sessions with rule sets

A session is the registry together with the rule sets that a host has made so far. Its operations
register a rule, make a further set, or change one of the sets. As long as every reordering names
each rule once, no set ever has two rules of one name. A reordering that names a rule twice puts the
rule into the set twice.
-/

namespace ApiLint

/-- The registry, and the rule sets in the order in which they were made. -/
structure Session where
  registry : Registry := {}
  sets : List RuleSet := []

namespace Session

/-- What a host does with rules. A set is named by its number in the order of making. -/
inductive Operation
  | register (rule : Rule)
  | ofList (rules : List Rule)
  | empty
  | default
  | ofNames (names : List String) (extra : List Rule)
  | copy (set : Nat)
  | add (set : Nat) (rule : Rule) (index : Option Int)
  | remove (set : Nat) (name : String)
  | reorder (set : Nat) (names : List String)

namespace Operation

/-- The set that an operation changes. -/
def target? : Operation → Option Nat
  | .add set .. | .remove set _ | .reorder set _ => some set
  | _ => none

/-- The rule that an operation registers. -/
def registered? : Operation → Option Rule
  | .register rule => some rule
  | _ => none

/-- A reordering names each rule once. -/
def NamesOnce : Operation → Prop
  | .reorder _ names => names.Nodup
  | _ => True

instance : DecidablePred NamesOnce
  | .reorder _ names => inferInstanceAs (Decidable names.Nodup)
  | .register _ | .ofList _ | .empty | .default | .ofNames .. | .copy _ | .add .. | .remove .. =>
    .isTrue trivial

end Operation

/-- The session with one more set. -/
def push (s : Session) (set : RuleSet) : Session := { s with sets := s.sets ++ [set] }

/-- The session with one of its sets changed. A set that was not made is not changed. -/
def change (s : Session) (set : Nat) (act : RuleSet → Except RuleError RuleSet) :
    Except RuleError Session :=
  match s.sets[set]? with
  | some rules => (act rules).map fun rules => { s with sets := s.sets.set set rules }
  | none => .ok s

/-- What an operation makes of a session. -/
def attempt (s : Session) : Operation → Except RuleError Session
  | .register rule => (s.registry.register rule).map fun registry => { s with registry }
  | .ofList rules => (RuleSet.ofList rules).map s.push
  | .empty => .ok (s.push .empty)
  | .default => (RuleSet.default s.registry).map s.push
  | .ofNames names extra => (RuleSet.ofNames s.registry names extra).1.map s.push
  | .copy set =>
    match s.sets[set]? with
    | some rules => rules.copy.map s.push
    | none => .ok s
  | .add set rule index => s.change set (·.add rule index)
  | .remove set name => s.change set (·.remove name)
  | .reorder set names => s.change set (·.reorder names)

/-- The session after an operation. One that is refused leaves it as it is. -/
def step (s : Session) (op : Operation) : Session :=
  match s.attempt op with
  | .ok s => s
  | .error _ => s

/-- The session after operations. -/
def run (s : Session) (ops : List Operation) : Session := ops.foldl step s

end Session

namespace RuleSet

/-! ### The names after an operation -/

lemma has_eq_true_iff {s : RuleSet} {name : String} : s.has name = true ↔ name ∈ s.names := by
  simp [has, names]

/-- An addition succeeds if the name is new, and the rule joins the others. -/
lemma add_eq_ok {s t : RuleSet} {rule : Rule} {index : Option Int} (h : s.add rule index = .ok t) :
    rule.name ∉ s.names ∧ t.rules.Perm (rule :: s.rules) := by
  unfold add at h
  split at h
  · cases h
  · next hnew =>
    refine ⟨fun hmem => hnew (has_eq_true_iff.mpr hmem), ?_⟩
    cases index with
    | none =>
      cases h
      exact List.perm_append_singleton ..
    | some i =>
      cases h
      exact List.perm_insertIdx _ _ (Nat.min_le_right ..)

lemma nodup_names_add {s t : RuleSet} {rule : Rule} {index : Option Int} (hs : s.names.Nodup)
    (h : s.add rule index = .ok t) : t.names.Nodup := by
  obtain ⟨hnew, hperm⟩ := add_eq_ok h
  exact (hperm.map Rule.name).nodup_iff.mpr (List.nodup_cons.mpr ⟨hnew, hs⟩)

lemma foldlM_add_eq_ok_iff {s t : RuleSet} (hs : s.names.Nodup) {rules : List Rule} :
    rules.foldlM (fun s rule => s.add rule) s = .ok t
      ↔ t = ⟨s.rules ++ rules⟩ ∧ (names ⟨s.rules ++ rules⟩).Nodup := by
  induction rules generalizing s with
  | nil => simp [pure, Except.pure, hs, eq_comm]
  | cons rule rules ih =>
    rw [List.foldlM_cons]
    by_cases hmem : rule.name ∈ s.names
    · have hadd : s.add rule = .error (.repeated rule.name) := by
        rw [add, if_pos (has_eq_true_iff.mpr hmem)]
      have hrepeated : ¬(names ⟨s.rules ++ rule :: rules⟩).Nodup := by
        intro hnodup
        rw [names, List.map_append, List.nodup_append] at hnodup
        exact hnodup.2.2 _ hmem _ (List.mem_cons_self ..) rfl
      simp [hadd, hrepeated, bind, Except.bind]
    · have hadd : s.add rule = .ok ⟨s.rules ++ [rule]⟩ := by
        rw [add, if_neg (fun h => hmem (has_eq_true_iff.mp h))]
      have hnodup : (names ⟨s.rules ++ [rule]⟩).Nodup := nodup_names_add hs hadd
      simpa [hadd, bind, Except.bind] using ih hnodup

/-- A set can be made of rules exactly if their names are distinct, and then it has these rules. -/
lemma ofList_eq_ok_iff {rules : List Rule} {t : RuleSet} :
    ofList rules = .ok t ↔ t = ⟨rules⟩ ∧ (rules.map Rule.name).Nodup :=
  foldlM_add_eq_ok_iff (s := empty) List.nodup_nil

lemma nodup_names_ofList {rules : List Rule} {t : RuleSet} (h : ofList rules = .ok t) :
    t.names.Nodup := by
  obtain ⟨rfl, hnodup⟩ := ofList_eq_ok_iff.mp h
  exact hnodup

lemma nodup_names_ofNames {registry : Registry} {names : List String} {extra : List Rule}
    {t : RuleSet} (h : (ofNames registry names extra).1 = .ok t) : t.names.Nodup := by
  rw [ofNames] at h
  split at h
  · cases h
  · exact nodup_names_ofList h

/-- A set with distinct names can be copied. -/
lemma copy_eq_ok {s : RuleSet} (hs : s.names.Nodup) : s.copy = .ok s :=
  ofList_eq_ok_iff.mpr ⟨rfl, hs⟩

lemma names_remove {s t : RuleSet} {name : String} (h : s.remove name = .ok t) :
    t.names = s.names.filter (· != name) := by
  rw [remove] at h
  split at h
  · cases h
    rw [names, names, List.filter_map]
    rfl
  · cases h

/-- Removing takes one rule out of a set with distinct names. -/
lemma size_remove {s t : RuleSet} (hs : s.names.Nodup) {name : String} (hname : name ∈ s.names)
    (h : s.remove name = .ok t) : t.size + 1 = s.size := by
  have hlength := List.length_erase_add_one hname
  rw [hs.erase_eq_filter, ← names_remove h] at hlength
  simpa [names, size] using hlength

/-- The names in front are those that are given, as often as they are. -/
lemma names_reorder {s t : RuleSet} {names : List String} (h : s.reorder names = .ok t) :
    t.names = names ++ s.names.filter (!names.contains ·) := by
  rw [reorder] at h
  split at h
  · next hknown =>
    cases h
    rw [RuleSet.names, List.map_append]
    congr 1
    · rw [List.map_filterMap]
      have hfound : ∀ name ∈ names, (s.find? name).map Rule.name = some name := by
        intro name hmem
        have hhas : s.has name = true := by
          simpa using List.filter_eq_nil_iff.mp hknown name hmem
        obtain ⟨rule, hrule, hname⟩ := List.any_eq_true.mp hhas
        cases hfind : s.find? name with
        | none => exact absurd hname (by simpa using List.find?_eq_none.mp hfind rule hrule)
        | some found => simpa using List.find?_some hfind
      rw [List.filterMap_congr hfound, List.filterMap_some]
    · rw [RuleSet.names, List.filter_map]
      rfl
  · cases h

/-- A reordering keeps the names distinct exactly if it names each rule once. -/
lemma nodup_names_reorder_iff {s t : RuleSet} (hs : s.names.Nodup) {names : List String}
    (h : s.reorder names = .ok t) : t.names.Nodup ↔ names.Nodup := by
  rw [names_reorder h, List.nodup_append]
  constructor
  · exact fun hnodup => hnodup.1
  · intro hnodup
    refine ⟨hnodup, hs.filter _, ?_⟩
    rintro name hname _ hother rfl
    simp [hname] at hother

/-- Of the rules that a walk calls on one kind of visits, one has the name of a given rule if it is
of that kind, and none otherwise. -/
lemma filter_rulesFor {s : RuleSet} (hs : s.names.Nodup) {rule : Rule} (hrule : rule ∈ s.rules)
    (kind : VisitKind) :
    (s.rulesFor kind).filter (·.name == rule.name) = if rule.visitKind = kind then [rule] else [] := by
  have hself : s.rules.filter (·.name == rule.name) = [rule] := by
    obtain ⟨before, after, hsplit⟩ := List.append_of_mem hrule
    rw [names, hsplit, List.map_append, List.map_cons, List.nodup_middle, List.nodup_cons] at hs
    have hnone : ∀ other ∈ before ++ after, other.name ≠ rule.name := fun other hother heq =>
      hs.1 (by simpa [← heq] using List.mem_map_of_mem (f := Rule.name) hother)
    rw [hsplit, List.filter_append, List.filter_cons_of_pos (by simp),
      List.filter_eq_nil_iff.mpr fun other hother => by simpa using hnone other (by simp [hother]),
      List.filter_eq_nil_iff.mpr fun other hother => by simpa using hnone other (by simp [hother])]
    rfl
  rw [rulesFor, List.filter_comm, hself]
  split <;> simp [*]

/-! ### What distinct names are good for -/

open Walk in
/-- A set without two rules of one name, and what follows from that. -/
structure KeepsNames (s : RuleSet) : Prop where
  distinct : s.names.Nodup
  copy : s.copy = .ok s
  reorder : ∀ names, (∀ name ∈ names, name ∈ s.names) → ∃ t, s.reorder names = .ok t
    ∧ (t.names.Nodup ↔ names.Nodup) ∧ (names.Nodup → t.rules.Perm s.rules)
  remove : ∀ name ∈ s.names, ∃ t, s.remove name = .ok t ∧ t.size + 1 = s.size
  /-- Among the rules that a walk calls on a kind of visits, each rule of the kind stands once. -/
  called : ∀ rule ∈ s.rules, ∀ kind,
    (s.rulesFor kind).filter (·.name == rule.name) = if rule.visitKind = kind then [rule] else []
  /-- What a walk finds under the name of a rule is what a single call finds on each visit. -/
  applied : ∀ (g : Graph) (found : Rule → Examination) (base : Pointer) (stopAtReferences : Bool)
    (root : Nat), g.IsWellFormed → g.IsDescribed → root < g.nodes.size →
    (∀ rule ∈ s.rules, rule.ReportsOwn g (found rule)) →
    ∃ findings, ((Walker.mk s base stopAtReferences).walk g (.node root)).findings = .ok findings
      ∧ ∀ rule ∈ s.rules, Collector.byRule ⟨findings⟩ rule.name
        = findingsAlong ⟨[rule]⟩ found
            (listing ⟨s, base, stopAtReferences⟩ g (depthBound g) [] base (.node root))

lemma exists_reorder {s : RuleSet} {names : List String} (h : ∀ name ∈ names, name ∈ s.names) :
    ∃ t, s.reorder names = .ok t := by
  have hknown : names.filter (fun name => !s.has name) = [] := by
    simpa [List.filter_eq_nil_iff, has_eq_true_iff] using h
  exact ⟨_, by rw [reorder, hknown]⟩

open Walk in
lemma keepsNames_of_nodup {s : RuleSet} (hs : s.names.Nodup) : s.KeepsNames where
  distinct := hs
  copy := copy_eq_ok hs
  reorder names hnames := by
    obtain ⟨t, ht⟩ := exists_reorder hnames
    have hiff := nodup_names_reorder_iff hs ht
    exact ⟨t, ht, hiff, fun hnodup => perm_reorder hs (hiff.mpr hnodup) ht⟩
  remove name hname := by
    have hremove : s.remove name = .ok ⟨s.rules.filter (·.name != name)⟩ := by
      rw [remove, if_pos (has_eq_true_iff.mpr hname)]
    exact ⟨_, hremove, size_remove hs hname hremove⟩
  called rule hrule kind := filter_rulesFor hs hrule kind
  applied g found base stopAtReferences root hg hnamed hroot hrules := by
    have hresolve : ∃ result, g.resolve (.node root) = .ok result :=
      ⟨_, Graph.resolve_node (Array.getElem?_eq_getElem hroot)⟩
    have hfindings : (Walker.walk ⟨s, base, stopAtReferences⟩ g (.node root)).findings = .ok _ :=
      findings_walk hg (fun rule hrule => (hrules rule hrule).toReports) hresolve
        (hnamed.namesRepeats ..)
    refine ⟨_, hfindings, ?_⟩
    intro rule hrule
    exact filter_findingsAlong hrules hs hrule fun path hpath => getElem?_of_mem_listing hpath

end RuleSet

namespace Session

/-! ### Runs -/

/-- The sets of the session have distinct names. -/
def IsDistinct (s : Session) : Prop := ∀ set ∈ s.sets, set.names.Nodup

lemma isDistinct_push {s : Session} (hs : s.IsDistinct) {set : RuleSet} (hset : set.names.Nodup) :
    (s.push set).IsDistinct := by
  intro other hother
  rcases List.mem_append.mp hother with hother | hother
  · exact hs other hother
  · rwa [List.mem_singleton.mp hother]

lemma isDistinct_change {s t : Session} (hs : s.IsDistinct) {set : Nat}
    {act : RuleSet → Except RuleError RuleSet}
    (hact : ∀ r r' : RuleSet, r.names.Nodup → act r = .ok r' → r'.names.Nodup)
    (h : s.change set act = .ok t) : t.IsDistinct := by
  rw [change] at h
  split at h
  · next rules hrules =>
    obtain ⟨rules', hrules', rfl⟩ := map_eq_ok_iff.mp h
    intro other hother
    rcases List.mem_or_eq_of_mem_set hother with hother | rfl
    · exact hs other hother
    · exact hact rules other (hs rules (List.mem_of_getElem? hrules)) hrules'
  · cases h
    exact hs

/-- An operation that names each rule once keeps the names in every set distinct. -/
lemma isDistinct_attempt {s t : Session} (hs : s.IsDistinct) {op : Operation} (hop : op.NamesOnce)
    (h : s.attempt op = .ok t) : t.IsDistinct := by
  cases op with
  | register rule =>
    obtain ⟨registry, _, rfl⟩ := map_eq_ok_iff.mp h
    exact hs
  | ofList rules =>
    obtain ⟨set, hset, rfl⟩ := map_eq_ok_iff.mp h
    exact isDistinct_push hs (RuleSet.nodup_names_ofList hset)
  | empty =>
    cases h
    exact isDistinct_push hs List.nodup_nil
  | default =>
    obtain ⟨set, hset, rfl⟩ := map_eq_ok_iff.mp h
    exact isDistinct_push hs (RuleSet.nodup_names_ofList hset)
  | ofNames names extra =>
    obtain ⟨set, hset, rfl⟩ := map_eq_ok_iff.mp h
    exact isDistinct_push hs (RuleSet.nodup_names_ofNames hset)
  | copy set =>
    rw [attempt] at h
    split at h
    · obtain ⟨copied, hcopied, rfl⟩ := map_eq_ok_iff.mp h
      exact isDistinct_push hs (RuleSet.nodup_names_ofList hcopied)
    · cases h
      exact hs
  | add set rule index =>
    exact isDistinct_change hs (fun _ _ hr hr' => RuleSet.nodup_names_add hr hr') h
  | remove set name =>
    refine isDistinct_change hs (fun r r' hr hr' => ?_) h
    rw [RuleSet.names_remove hr']
    exact hr.filter _
  | reorder set names =>
    exact isDistinct_change hs (fun _ _ hr hr' =>
      (RuleSet.nodup_names_reorder_iff hr hr').mpr hop) h

lemma isDistinct_step {s : Session} (hs : s.IsDistinct) {op : Operation} (hop : op.NamesOnce) :
    (s.step op).IsDistinct := by
  rw [step]
  split
  · next t h => exact isDistinct_attempt hs hop h
  · exact hs

lemma isDistinct_run {s : Session} (hs : s.IsDistinct) {ops : List Operation}
    (hops : ∀ op ∈ ops, op.NamesOnce) : (s.run ops).IsDistinct := by
  induction ops generalizing s with
  | nil => exact hs
  | cons op ops ih =>
    exact ih (isDistinct_step hs (hops op (List.mem_cons_self ..)))
      fun other hother => hops other (List.mem_cons_of_mem _ hother)

/-- After any operations, refused ones included, of which the reorderings name each rule once, no
rule set has two rules of one name. So it can be copied, a reordering changes nothing but the order,
and repeats a name exactly if it is given a name twice, removing a rule takes one rule away, and a
walk calls each rule once on a visit. -/
theorem names_stay_unique (ops : List Operation) (hops : ∀ op ∈ ops, op.NamesOnce) :
    ∀ set ∈ (run {} ops).sets, set.KeepsNames :=
  fun set hset => RuleSet.keepsNames_of_nodup
    (isDistinct_run (s := {}) (fun _ hset => absurd hset List.not_mem_nil) hops set hset)

/-- Operations of every kind, some of which are refused. -/
def sampleOperations : List Operation :=
  [.default, .register .naming, .reorder 0 ["ValidateAnyOfDiscriminator"], .register .naming,
    .add 0 .tagging (some (-1)), .copy 0, .remove 1 "TypeMismatch", .remove 1 "TypeMismatch",
    .ofNames ["Tagging", "Naming"] [.tagging], .ofNames ["Naming", "Naming"] [], .default]

theorem names_stay_unique_sample :
    (run {} sampleOperations).sets.map RuleSet.names
        = [["ValidateAnyOfDiscriminator", "TypeMismatch", "Tagging", "ValidateOneOfDiscriminator"],
          ["ValidateAnyOfDiscriminator", "Tagging", "ValidateOneOfDiscriminator"],
          ["Tagging", "Naming"],
          ["TypeMismatch", "ValidateOneOfDiscriminator", "ValidateAnyOfDiscriminator", "Naming"]]
      ∧ (∀ op ∈ sampleOperations, op.NamesOnce)
      ∧ ∀ set ∈ (run {} sampleOperations).sets, set.KeepsNames := by
  have hops : ∀ op ∈ sampleOperations, op.NamesOnce := by decide
  exact ⟨by decide, hops, names_stay_unique sampleOperations hops⟩

/-- A reordering that names a rule twice makes two rules of one. Then the set cannot be copied, and
removing the rule takes both away. -/
theorem reorder_repeats_rule :
    ∃ set, (run {} [.default, .reorder 0 ["TypeMismatch", "TypeMismatch"]]).sets = [set]
      ∧ set.names = ["TypeMismatch", "TypeMismatch", "ValidateOneOfDiscriminator",
        "ValidateAnyOfDiscriminator"]
      ∧ ¬set.names.Nodup
      ∧ set.copy = .error (.repeated "TypeMismatch")
      ∧ ∃ removed, set.remove "TypeMismatch" = .ok removed ∧ removed.size + 2 = set.size := by
  refine ⟨_, rfl, by decide, by decide, rfl, _, rfl, by decide⟩

end Session

end ApiLint
