import ApiLint.Proofs.Rule.Sessions

/-!
# Rules by their names

Names select a rule set if each of them is known and none of them stands twice, and no names select
all known rules. Otherwise an unknown name, or else a repeated one, is refused.
-/

namespace ApiLint

/-- The name of a rule of the library. -/
def Rule.IsKnown (name : String) : Prop := name ∈ builtin.map Rule.name

instance : DecidablePred Rule.IsKnown := fun name =>
  inferInstanceAs (Decidable (name ∈ Rule.builtin.map Rule.name))

namespace RuleSet

variable {names : List String} {rules : List Rule} {rule : Rule} {name : String}

/-- The set that names select: the rules of the names, or all rules without names. -/
inductive Selects : List String → RuleSet → Prop
  | all : Selects [] ⟨Rule.builtin⟩
  | named {rules : List Rule} (nonempty : rules ≠ []) (known : ∀ rule ∈ rules, rule ∈ Rule.builtin)
      (distinct : (rules.map Rule.name).Nodup) : Selects (rules.map Rule.name) ⟨rules⟩

/-! ### Known names -/

/-- The rules that can be selected, by their names. -/
abbrev known : Fields Rule := selectable {} []

lemma find?_known_of_mem (h : rule ∈ Rule.builtin) : known.find? rule.name = some rule := by
  rcases Rule.mem_builtin_iff.mp h with rfl | rfl | rfl <;> rfl

lemma find?_known_eq_none (h : ¬Rule.IsKnown name) : known.find? name = none := by
  have hnames : known.names = Rule.builtin.map Rule.name := rfl
  exact Fields.find?_eq_none_iff.mpr (hnames ▸ h)

/-- Rules of the library are selected by their names. -/
lemma select_map_name (h : ∀ rule ∈ rules, rule ∈ Rule.builtin) :
    select known (rules.map Rule.name) = .ok rules := by
  induction rules with
  | nil => rfl
  | cons rule rules ih =>
    obtain ⟨hrule, hrules⟩ := List.forall_mem_cons.mp h
    have hselect := ih hrules
    rw [select] at hselect ⊢
    rw [List.map_cons, List.mapM_cons, hselect, find?_known_of_mem hrule]
    rfl

/-- An unknown name is refused. -/
lemma select_eq_unknown (h : ∃ name ∈ names, ¬Rule.IsKnown name) :
    ∃ name ∈ names, ¬Rule.IsKnown name
      ∧ select known names = .error (.unknown name (sortedNames known.names)) := by
  induction names with
  | nil => simp at h
  | cons name names ih =>
    by_cases hname : Rule.IsKnown name
    · obtain ⟨rule, hrule, rfl⟩ := List.mem_map.mp hname
      -- the first unknown name is among the others
      obtain ⟨other, hother, hunknown, heq⟩ := ih (by simpa [hname] using h)
      refine ⟨other, List.mem_cons_of_mem _ hother, hunknown, ?_⟩
      rw [select] at heq ⊢
      rw [List.mapM_cons, heq, find?_known_of_mem hrule]
      rfl
    · refine ⟨name, List.mem_cons_self .., hname, ?_⟩
      rw [select, List.mapM_cons, find?_known_eq_none hname]
      rfl

/-- Known names are the names of rules of the library. -/
lemma exists_map_name_eq (h : ∀ name ∈ names, Rule.IsKnown name) :
    ∃ rules : List Rule, (∀ rule ∈ rules, rule ∈ Rule.builtin) ∧ rules.map Rule.name = names := by
  induction names with
  | nil => exact ⟨[], nofun, rfl⟩
  | cons name names ih =>
    obtain ⟨rules, hrules, rfl⟩ := ih fun name hname => h name (List.mem_cons_of_mem _ hname)
    obtain ⟨rule, hrule, rfl⟩ := List.mem_map.mp (h name (List.mem_cons_self ..))
    exact ⟨rule :: rules, List.forall_mem_cons.mpr ⟨hrule, hrules⟩, rfl⟩

/-! ### Repeated names -/

/-- Rules are added until one has a name that the set has already. -/
lemma foldlM_add_eq_repeated {s : RuleSet} (hs : s.names.Nodup)
    (h : ¬(RuleSet.names ⟨s.rules ++ rules⟩).Nodup) : ∃ rule ∈ rules,
      rules.foldlM (fun s rule => s.add rule) s = .error (.repeated rule.name) := by
  induction rules generalizing s with
  | nil => exact absurd (by rwa [List.append_nil]) h
  | cons rule rules ih =>
    rw [List.foldlM_cons]
    cases hadd : s.add rule with
    | error e =>
      refine ⟨rule, List.mem_cons_self .., ?_⟩
      unfold add at hadd
      split at hadd
      · cases hadd
        rfl
      · cases hadd
    | ok t =>
      have ht : t = ⟨s.rules ++ [rule]⟩ := by
        unfold add at hadd
        split at hadd
        · cases hadd
        · exact (Except.ok.inj hadd).symm
      obtain ⟨other, hother, heq⟩ := ih (nodup_names_add hs hadd) (by simpa [ht] using h)
      exact ⟨other, List.mem_cons_of_mem _ hother, heq⟩

lemma ofList_eq_repeated (h : ¬(rules.map Rule.name).Nodup) :
    ∃ rule ∈ rules, ofList rules = .error (.repeated rule.name) :=
  foldlM_add_eq_repeated (s := empty) List.nodup_nil h

/-- Names select a set exactly if each of them is known and none of them stands twice. -/
lemma exists_selects_iff :
    (∃ s, Selects names s) ↔ (∀ name ∈ names, Rule.IsKnown name) ∧ names.Nodup := by
  constructor
  · rintro ⟨s, hselects⟩
    cases hselects with
    | all => exact ⟨nofun, List.nodup_nil⟩
    | named nonempty known distinct =>
      exact ⟨List.forall_mem_map.mpr fun rule hrule => List.mem_map_of_mem (known rule hrule),
        distinct⟩
  · rintro ⟨hknown, hdistinct⟩
    obtain ⟨rules, hrules, rfl⟩ := exists_map_name_eq hknown
    cases rules with
    | nil => exact ⟨_, .all⟩
    | cons rule rules => exact ⟨_, .named (List.cons_ne_nil _ _) hrules hdistinct⟩

end RuleSet

end ApiLint
