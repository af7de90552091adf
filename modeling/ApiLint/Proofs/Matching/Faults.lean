import ApiLint.Proofs.Document.Reading
import ApiLint.Proofs.Matching.Equations

/-!
# Where matching fails

Matching a literal against a schema does not look at all of either. It follows the literal into the
schemas below, and fails where what governs a part of the literal is no schema, or where a part that
a type governs is no value. Which of these it comes to does not depend on the pointer.
-/

namespace ApiLint

/-- Outcomes that are a fault if and only if there is one of the given faults; then it is one of
them, and always the same. -/
def FailsWith {ι α : Type} (outcome : ι → Except Fault α) (faults : Fault → Prop) : Prop :=
  (∃ fault, faults fault ∧ ∀ i, outcome i = .error fault)
    ∨ (∀ fault, ¬faults fault) ∧ ∀ i, ∃ a, outcome i = .ok a

namespace FailsWith

variable {ι κ α β γ : Type} {first : ι → Except Fault α} {second : κ → Except Fault β}
  {F G : Fault → Prop}

lemma never (h : ∀ i, ∃ a, first i = .ok a) (hF : ∀ fault, ¬F fault) : FailsWith first F :=
  .inr ⟨hF, h⟩

lemma always {fault : Fault} (h : ∀ i, first i = .error fault) (hF : F fault) :
    FailsWith first F :=
  .inl ⟨fault, hF, h⟩

lemma congr (h : FailsWith first F) (hFG : ∀ fault, F fault ↔ G fault) : FailsWith first G := by
  rwa [show G = F from funext fun fault => propext (hFG fault).symm]

lemma map {other : κ → Except Fault β} (h : FailsWith first F)
    (hother : ∀ k, ∃ i f, other k = (first i).map f) : FailsWith other F := by
  rcases h with ⟨fault, hfault, hfirst⟩ | ⟨hF, hfirst⟩
  · refine always (fun k => ?_) hfault
    obtain ⟨i, f, hk⟩ := hother k
    rw [hk, hfirst]
    rfl
  · refine never (fun k => ?_) hF
    obtain ⟨i, f, hk⟩ := hother k
    obtain ⟨a, ha⟩ := hfirst i
    exact ⟨f a, by rw [hk, ha]; rfl⟩

/-- Of two outcomes in a row, the second one matters only if the first one is no fault. -/
lemma andThen {both : ι → Except Fault γ} (h : FailsWith first F) (h' : FailsWith second G)
    (herror : ∀ i fault, first i = .error fault → both i = .error fault)
    (hok : ∀ i a, first i = .ok a → ∃ k f, both i = (second k).map f) :
    FailsWith both fun fault => F fault ∨ G fault := by
  rcases h with ⟨fault, hfault, hfirst⟩ | ⟨hF, hfirst⟩
  · exact always (fun i => herror i fault (hfirst i)) (.inl hfault)
  · have hboth : FailsWith both G := h'.map fun i => by
      obtain ⟨a, ha⟩ := hfirst i
      exact hok i a ha
    exact hboth.congr fun fault => (or_iff_right (hF fault)).symm

end FailsWith

/-- The fault of a raw value inside a literal is none of the graph. -/
lemma Fault.ofForeign_ne_invalidGraph (raw : Raw) (e : InvalidGraph) :
    Fault.ofForeign raw ≠ .invalidGraph e := by
  rw [ofForeign]
  split <;> nofun

/-- Induction over a literal, with the elements of an array and the members of an object at once. -/
theorem Literal.nested_induction {motive : Literal → Prop}
    (scalar : ∀ kind payload, motive (.scalar kind payload))
    (array : ∀ items, (∀ item ∈ items, motive item) → motive (.array items))
    (object : ∀ members, (∀ m ∈ members, motive m.2) → motive (.object members))
    (foreign : ∀ raw, motive (.foreign raw)) : ∀ value, motive value
  | .scalar kind payload => scalar kind payload
  | .array items => array items fun item _ =>
      nested_induction scalar array object foreign item
  | .object members => object members fun m _ =>
      nested_induction scalar array object foreign m.2
  | .foreign raw => foreign raw
decreasing_by
  · have hlt := List.sizeOf_lt_of_mem ‹item ∈ items›
    simp only [Literal.array.sizeOf_spec]
    omega
  · have hlt := List.sizeOf_lt_of_mem ‹m ∈ members›
    obtain ⟨name, value⟩ := m
    simp only [Literal.object.sizeOf_spec, Prod.mk.sizeOf_spec] at hlt ⊢
    omega

namespace Matching

/-- What a literal comes to below a child that keeps it from being matched: a raw value where a
schema belongs, or where a value belongs that a type governs. -/
inductive Meets (g : Graph) : Child → Literal → Fault → Prop
  | schema {child : Child} {value : Literal} {raw : Raw} (h : g.resolve child = .error raw) :
      Meets g child value (.notASchema raw.kindPath "type")
  | literal {child : Child} {place : Nat} {node : Node} {raw : Raw}
      (h : g.resolve child = .ok (place, node)) (htype : node.type.isNull = false) :
      Meets g child (.foreign raw) (.ofForeign raw)
  | item {child next : Child} {place : Nat} {node : Node} {items : List Literal} {item : Literal}
      {fault : Fault} (h : g.resolve child = .ok (place, node))
      (htype : node.type.isText "array" = true) (hnext : node.items = some next)
      (hitem : item ∈ items) (hmeets : Meets g next item fault) : Meets g child (.array items) fault
  | member {child next : Child} {place : Nat} {node : Node} {members : List (String × Literal)}
      {m : String × Literal} {fault : Fault} (h : g.resolve child = .ok (place, node))
      (htype : node.type.isText "object" = true) (hm : m ∈ members)
      (hnext : memberSchema? node m.1 = some next) (hmeets : Meets g next m.2 fault) :
      Meets g child (.object members) fault

variable {g : Graph}

lemma append_failsWith {first second : Pointer → Except Fault (List Finding)} {F G : Fault → Prop}
    (h : FailsWith first F) (h' : FailsWith second G) :
    FailsWith (fun pointer => do
      let here ← first pointer
      let others ← second pointer
      return here ++ others) fun fault => F fault ∨ G fault := by
  apply h.andThen h'
  · intro pointer fault hfirst
    rw [hfirst]
    rfl
  · intro pointer fs hfirst
    refine ⟨pointer, (fs ++ ·), ?_⟩
    rw [hfirst]
    cases second pointer <;> rfl

lemma below_failsWith {child : Child} {value : Literal}
    (h : FailsWith (mismatches g child · value) (Meets g child value)) (segments : List String) :
    FailsWith (fun pointer : Pointer => mismatches g child (pointer.join segments) value)
      (Meets g child value) :=
  h.map fun pointer => ⟨pointer.join segments, id, by cases mismatches g child _ value <;> rfl⟩

lemma itemMismatches_failsWith {child : Child} {items : List Literal}
    (h : ∀ item ∈ items, FailsWith (mismatches g child · item) (Meets g child item)) (index : Nat) :
    FailsWith (itemMismatches g child · index items)
      fun fault => ∃ item ∈ items, Meets g child item fault := by
  induction items generalizing index with
  | nil => exact .never (fun _ => ⟨[], by rw [itemMismatches]⟩) (by simp)
  | cons item rest ih =>
    obtain ⟨hitem, hrest⟩ := List.forall_mem_cons.mp h
    simp only [itemMismatches, List.exists_mem_cons_iff]
    exact append_failsWith (below_failsWith hitem _) (ih hrest (index + 1))

lemma memberMismatches_failsWith {node : Node} {members : List (String × Literal)}
    (h : ∀ m ∈ members, ∀ child, FailsWith (mismatches g child · m.2) (Meets g child m.2)) :
    FailsWith (memberMismatches g node · members)
      fun fault => ∃ m ∈ members, ∃ child, memberSchema? node m.1 = some child
        ∧ Meets g child m.2 fault := by
  induction members with
  | nil => exact .never (fun _ => ⟨[], by rw [memberMismatches]⟩) (by simp)
  | cons m rest ih =>
    obtain ⟨hm, hrest⟩ := List.forall_mem_cons.mp h
    simp only [memberMismatches, List.exists_mem_cons_iff]
    cases hchild : memberSchema? node m.1 with
    | none =>
      have hnone : FailsWith (fun _ : Pointer => .ok ([] : List Finding)) fun _ => False :=
        .never (fun _ => ⟨[], rfl⟩) fun _ => not_false
      refine (append_failsWith hnone (ih hrest)).congr ?_
      simp
    | some child =>
      refine (append_failsWith (below_failsWith (hm child) _) (ih hrest)).congr ?_
      simp

section Inversion

variable {child : Child} {place : Nat} {node : Node} {fault : Fault}

lemma not_meets_scalar (h : g.resolve child = .ok (place, node)) {kind : ScalarKind}
    {payload : Raw} : ¬Meets g child (.scalar kind payload) fault := by
  rintro ⟨herror⟩
  simp [h] at herror

lemma meets_foreign_iff (h : g.resolve child = .ok (place, node)) {raw : Raw} :
    Meets g child (.foreign raw) fault ↔ node.type.isNull = false ∧ fault = .ofForeign raw := by
  constructor
  · intro hmeets
    cases hmeets with
    | schema herror => simp [h] at herror
    | literal h' htype =>
      rw [h] at h'
      cases h'
      exact ⟨htype, rfl⟩
  · rintro ⟨htype, rfl⟩
    exact .literal h htype

lemma meets_array_iff (h : g.resolve child = .ok (place, node)) {items : List Literal} :
    Meets g child (.array items) fault ↔ node.type.isText "array" = true
      ∧ ∃ next, node.items = some next ∧ ∃ item ∈ items, Meets g next item fault := by
  constructor
  · intro hmeets
    cases hmeets with
    | schema herror => simp [h] at herror
    | item h' htype hnext hitem hmeets =>
      rw [h] at h'
      cases h'
      exact ⟨htype, _, hnext, _, hitem, hmeets⟩
  · rintro ⟨htype, next, hnext, item, hitem, hmeets⟩
    exact .item h htype hnext hitem hmeets

lemma meets_object_iff (h : g.resolve child = .ok (place, node))
    {members : List (String × Literal)} :
    Meets g child (.object members) fault ↔ node.type.isText "object" = true
      ∧ ∃ m ∈ members, ∃ next, memberSchema? node m.1 = some next ∧ Meets g next m.2 fault := by
  constructor
  · intro hmeets
    cases hmeets with
    | schema herror => simp [h] at herror
    | member h' htype hm hnext hmeets =>
      rw [h] at h'
      cases h'
      exact ⟨htype, _, hm, _, hnext, hmeets⟩
  · rintro ⟨htype, m, hm, next, hnext, hmeets⟩
    exact .member h htype hm hnext hmeets

end Inversion

/-- What is no schema is met at once. -/
lemma failsWith_of_resolve {child : Child} {value : Literal}
    (h : ∀ place node, g.resolve child = .ok (place, node) →
      FailsWith (mismatches g child · value) (Meets g child value)) :
    FailsWith (mismatches g child · value) (Meets g child value) := by
  cases hresolve : g.resolve child with
  | error raw =>
    exact .always (fun pointer => mismatches_of_resolve_eq_error hresolve pointer value)
      (.schema hresolve)
  | ok found => exact h found.1 found.2 hresolve

/-- Under another type the parts of a literal are not looked at, and nothing fails. -/
lemma underType_failsWith {node : Node} {type : String}
    {parts : Pointer → Except Fault (List Finding)} {F : Fault → Prop} (h : FailsWith parts F) :
    FailsWith (fun pointer => underType node type pointer (parts pointer))
      fun fault => node.type.isText type = true ∧ F fault := by
  cases htype : node.type.isText type with
  | true =>
    simp only [underType_of_isText htype, true_and]
    exact h
  | false =>
    simp only [underType_of_not_isText htype]
    exact .never (fun _ => ⟨_, rfl⟩) (by simp)

lemma elementMismatches_failsWith {node : Node} {items : List Literal}
    (h : ∀ item ∈ items, ∀ child, FailsWith (mismatches g child · item) (Meets g child item)) :
    FailsWith (elementMismatches g node · items)
      fun fault => ∃ next, node.items = some next ∧ ∃ item ∈ items, Meets g next item fault := by
  simp only [elementMismatches]
  cases node.items with
  | none => exact .never (fun _ => ⟨_, rfl⟩) (by simp)
  | some next =>
    refine (itemMismatches_failsWith (fun item hitem => h item hitem next) 0).congr ?_
    simp

/-- Matching a literal fails with something that the literal meets, if there is any, and not at all
otherwise. -/
theorem mismatches_failsWith (value : Literal) :
    ∀ child, FailsWith (mismatches g child · value) (Meets g child value) := by
  induction value using Literal.nested_induction with
  | scalar kind payload =>
    intro child
    apply failsWith_of_resolve
    intro place node h
    refine .never (fun pointer => ?_) fun fault => not_meets_scalar h
    rw [mismatches_scalar h]
    split
    · exact ⟨_, rfl⟩
    · exact ⟨_, rfl⟩
  | array items ih =>
    intro child
    apply failsWith_of_resolve
    intro place node h
    refine .congr ?_ fun fault => (meets_array_iff h).symm
    simp only [mismatches_array h]
    exact underType_failsWith (elementMismatches_failsWith ih)
  | object members ih =>
    intro child
    apply failsWith_of_resolve
    intro place node h
    refine .congr ?_ fun fault => (meets_object_iff h).symm
    simp only [mismatches_object h]
    exact underType_failsWith (memberMismatches_failsWith ih)
  | foreign raw =>
    intro child
    apply failsWith_of_resolve
    intro place node h
    refine .congr ?_ fun fault => (meets_foreign_iff h).symm
    simp only [mismatches_foreign h]
    cases htype : node.type.isNull with
    | true => exact .never (fun _ => ⟨_, rfl⟩) (by simp)
    | false => exact .always (fun _ => rfl) ⟨rfl, rfl⟩

end Matching

end ApiLint
