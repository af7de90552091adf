import Mathlib.Data.List.Forall2
import ApiLint.Schema.Node

/-!
# Lists in step

Two lists are in a chain if their elements are related one by one, and every pair takes an interval
of places that starts where the interval of the pair before it ends. The children of a schema, in
the order of a walk, come in six parts, so chains of children are put together of six.
-/

namespace ApiLint

/-- Two lists related element by element, with consecutive intervals of places. -/
inductive Chain {α β : Type} (R : Nat → Nat → α → β → Prop) : Nat → Nat → List α → List β → Prop
  | nil (n : Nat) : Chain R n n [] []
  | cons {lo mid hi : Nat} {a : α} {b : β} {as : List α} {bs : List β} (head : R lo mid a b)
      (tail : Chain R mid hi as bs) : Chain R lo hi (a :: as) (b :: bs)

namespace Chain

variable {α β γ δ : Type} {R : Nat → Nat → α → β → Prop} {lo mid hi : Nat}

lemma append {as as' : List α} {bs bs' : List β} (h : Chain R lo mid as bs)
    (h' : Chain R mid hi as' bs') : Chain R lo hi (as ++ as') (bs ++ bs') := by
  induction h with
  | nil => exact h'
  | cons head _ ih => exact .cons head (ih h')

lemma single {a : α} {b : β} (h : R lo hi a b) : Chain R lo hi [a] [b] := .cons h (.nil _)

lemma flatten {as : List (List α)} {bs : List (List β)} (h : Chain (Chain R) lo hi as bs) :
    Chain R lo hi as.flatten bs.flatten := by
  induction h with
  | nil => exact .nil _
  | cons head _ ih => exact head.append ih

lemma map {S : Nat → Nat → γ → δ → Prop} {f : α → γ} {g : β → δ} {as : List α} {bs : List β}
    (h : Chain R lo hi as bs) (hRS : ∀ lo hi a b, R lo hi a b → S lo hi (f a) (g b)) :
    Chain S lo hi (as.map f) (bs.map g) := by
  induction h with
  | nil => exact .nil _
  | cons head _ ih => exact .cons (hRS _ _ _ _ head) ih

lemma imp {S : Nat → Nat → α → β → Prop} {as : List α} {bs : List β} (h : Chain R lo hi as bs)
    (hRS : ∀ lo hi a b, R lo hi a b → S lo hi a b) : Chain S lo hi as bs := by
  simpa using h.map (f := id) (g := id) hRS

lemma imp_of_mem {S : Nat → Nat → α → β → Prop} {as : List α} {bs : List β}
    (h : Chain R lo hi as bs) (hRS : ∀ lo hi, ∀ a ∈ as, ∀ b, R lo hi a b → S lo hi a b) :
    Chain S lo hi as bs := by
  induction h with
  | nil => exact .nil _
  | cons head _ ih =>
    exact .cons (hRS _ _ _ (List.mem_cons_self ..) _ head)
      (ih fun lo hi a ha => hRS lo hi a (List.mem_cons_of_mem _ ha))

lemma of_map_left {f : γ → α} {cs : List γ} {bs : List β} (h : Chain R lo hi (cs.map f) bs) :
    Chain (fun lo hi c b => R lo hi (f c) b) lo hi cs bs := by
  induction cs generalizing lo bs with
  | nil => cases h; exact .nil _
  | cons c cs ih =>
    cases h with
    | cons head tail => exact .cons head (ih tail)

/-- Numbering the elements of both lists. -/
lemma zipIdx {as : List α} {bs : List β} (h : Chain R lo hi as bs) (k : Nat) :
    Chain (fun lo hi a b => a.2 = b.2 ∧ R lo hi a.1 b.1) lo hi (as.zipIdx k) (bs.zipIdx k) := by
  induction h generalizing k with
  | nil => exact .nil _
  | cons head _ ih => exact .cons ⟨rfl, head⟩ (ih (k + 1))

lemma le {as : List α} {bs : List β} (h : Chain R lo hi as bs)
    (hR : ∀ lo hi a b, R lo hi a b → lo ≤ hi) : lo ≤ hi := by
  induction h with
  | nil => exact Nat.le_refl _
  | cons head _ ih => exact Nat.le_trans (hR _ _ _ _ head) ih

/-- The intervals of the pairs lie in the interval of the chain. -/
lemma within {as : List α} {bs : List β} (h : Chain R lo hi as bs)
    (hR : ∀ lo hi a b, R lo hi a b → lo ≤ hi) :
    Chain (fun lo' hi' a b => R lo' hi' a b ∧ lo ≤ lo' ∧ hi' ≤ hi) lo hi as bs := by
  induction h with
  | nil => exact .nil _
  | cons head tail ih =>
    have hhead := hR _ _ _ _ head
    refine .cons ⟨head, Nat.le_refl _, tail.le hR⟩ (ih.imp ?_)
    rintro _ _ _ _ ⟨hR', hlo, hhi⟩
    exact ⟨hR', Nat.le_trans hhead hlo, hhi⟩

/-- A place in the interval of a chain is in the interval of one of the pairs. -/
lemma exists_of_le_of_lt {as : List α} {bs : List β} (h : Chain R lo hi as bs) {place : Nat}
    (hlo : lo ≤ place) (hhi : place < hi) :
    ∃ a ∈ as, ∃ b ∈ bs, ∃ lo' hi', R lo' hi' a b ∧ lo' ≤ place ∧ place < hi' := by
  induction h with
  | nil => omega
  | @cons lo mid _ a b _ _ head _ ih =>
    by_cases hmid : place < mid
    · exact ⟨a, List.mem_cons_self .., b, List.mem_cons_self .., lo, mid, head, hlo, hmid⟩
    · obtain ⟨a', ha, b', hb, hrest⟩ := ih (by omega) hhi
      exact ⟨a', List.mem_cons_of_mem _ ha, b', List.mem_cons_of_mem _ hb, hrest⟩

/-- A relation in front of a chain. -/
lemma comp {S : γ → α → Prop} {cs : List γ} {as : List α} {bs : List β}
    (h : List.Forall₂ S cs as) (h' : Chain R lo hi as bs) :
    Chain (fun lo hi c b => ∃ a, S c a ∧ R lo hi a b) lo hi cs bs := by
  induction h generalizing lo bs with
  | nil => cases h'; exact .nil _
  | cons head _ ih =>
    cases h' with
    | cons head' tail' => exact .cons ⟨_, head, head'⟩ (ih tail')

/-- A relation beside a chain. -/
lemma zip {S : α → γ → Prop} {as : List α} {bs : List β} {cs : List γ} (h : Chain R lo hi as bs)
    (h' : List.Forall₂ S as cs) :
    Chain (fun lo hi a x => S a x.1 ∧ R lo hi a x.2) lo hi as (cs.zip bs) := by
  induction h generalizing cs with
  | nil => cases h'; exact .nil _
  | cons head _ ih =>
    cases h' with
    | cons head' tail' => exact .cons ⟨head', head⟩ (ih tail')

lemma getElem? {as : List α} {bs : List β} (h : Chain R lo hi as bs) {i : Nat} {a : α}
    (ha : as[i]? = some a) : ∃ b lo hi, bs[i]? = some b ∧ R lo hi a b := by
  induction h generalizing i with
  | nil => simp at ha
  | @cons lo _ _ _ b _ _ head _ ih =>
    cases i with
    | zero =>
      cases ha
      exact ⟨b, _, _, rfl, head⟩
    | succ i => exact ih ha

lemma forall₂ {as : List α} {bs : List β} (h : Chain R lo hi as bs) :
    List.Forall₂ (fun a b => ∃ lo hi, R lo hi a b) as bs := by
  induction h with
  | nil => exact .nil
  | cons head _ ih => exact .cons ⟨_, _, head⟩ ih

end Chain

/-- Two intervals of places, the second of which starts where the first ends. -/
lemma range'_append_range' {lo mid hi : Nat} (h : lo ≤ mid) (h' : mid ≤ hi) :
    List.range' lo (mid - lo) ++ List.range' mid (hi - mid) = List.range' lo (hi - lo) := by
  have hmid : mid = lo + (mid - lo) := by omega
  rw [show hi - lo = mid - lo + (hi - mid) by omega, ← List.range'_append_1, ← hmid]

/-! ### Lists related one by one -/

lemma exists_of_forall₂_of_mem_right {α β : Type} {R : α → β → Prop} {as : List α} {bs : List β}
    (h : List.Forall₂ R as bs) {b : β} (hb : b ∈ bs) : ∃ a ∈ as, R a b := by
  induction h with
  | nil => cases hb
  | @cons a _ _ _ head _ ih =>
    rcases List.mem_cons.mp hb with rfl | hb
    · exact ⟨a, List.mem_cons_self .., head⟩
    · obtain ⟨a', ha, hR⟩ := ih hb
      exact ⟨a', List.mem_cons_of_mem _ ha, hR⟩

lemma exists_of_forall₂_of_mem_left {α β : Type} {R : α → β → Prop} {as : List α} {bs : List β}
    (h : List.Forall₂ R as bs) {a : α} (ha : a ∈ as) : ∃ b ∈ bs, R a b :=
  exists_of_forall₂_of_mem_right h.flip ha

lemma getElem?_of_forall₂ {α β : Type} {R : α → β → Prop} {as : List α} {bs : List β}
    (h : List.Forall₂ R as bs) {i : Nat} {a : α} (ha : as[i]? = some a) :
    ∃ b, bs[i]? = some b ∧ R a b := by
  induction h generalizing i with
  | nil => simp at ha
  | cons head _ ih =>
    cases i with
    | zero =>
      cases ha
      exact ⟨_, rfl, head⟩
    | succ i => exact ih ha

lemma forall₂_mapIdx {α β γ δ : Type} {R : α → β → Prop} {S : γ → δ → Prop} {f : Nat → α → γ}
    {g : Nat → β → δ} {as : List α} {bs : List β} (h : List.Forall₂ R as bs)
    (hRS : ∀ i a b, R a b → S (f i a) (g i b)) : List.Forall₂ S (as.mapIdx f) (bs.mapIdx g) := by
  induction h generalizing f g with
  | nil => exact .nil
  | cons head _ ih =>
    rw [List.mapIdx_cons, List.mapIdx_cons]
    exact .cons (hRS 0 _ _ head) (ih fun i => hRS (i + 1))

lemma flatMap_eq_of_forall₂ {α β γ : Type} {f : α → List γ} {f' : β → List γ} {as : List α}
    {bs : List β} (h : List.Forall₂ (fun a b => f a = f' b) as bs) :
    as.flatMap f = bs.flatMap f' := by
  rw [← List.forall₂_eq_eq_eq]
  refine List.rel_flatMap h ?_
  intro a b hab
  rw [hab, List.forall₂_eq_eq_eq]

lemma filterMap_eq_of_forall₂ {α β γ : Type} {f : α → Option γ} {f' : β → Option γ} {as : List α}
    {bs : List β} (h : List.Forall₂ (fun a b => f a = f' b) as bs) :
    as.filterMap f = bs.filterMap f' := by
  rw [← List.forall₂_eq_eq_eq]
  refine List.rel_filterMap ?_ h
  intro a b hab
  rw [hab]
  cases f' b with
  | none => exact .none
  | some c => exact .some rfl

/-! ### Children of schemas -/

namespace SchemaNode

variable {σ τ : Type}

/-- The children of a schema by the keyword that they stand under, in the order of a walk. -/
def parts (node : SchemaNode σ) : List (List (Edge × σ)) :=
  [node.properties.map fun (name, child) => (.property name, child),
    node.items.toList.map fun child => (.items, child),
    node.additional.toList.map fun child => (.additional, child),
    node.oneOf.map fun child => (.member .oneOf, child),
    node.anyOf.map fun child => (.member .anyOf, child),
    node.allOf.map fun child => (.member .allOf, child)]

lemma children_eq_flatten_parts (node : SchemaNode σ) : node.children = node.parts.flatten := by
  simp [children, parts, CompositionKind.all, composition]

/-- Children under the same steps that are related. -/
def OnChildren (R : σ → τ → Prop) (x : Edge × σ) (y : Edge × τ) : Prop := x.1 = y.1 ∧ R x.2 y.2

/-- Two schemas whose children are related part by part. -/
def Similar (R : σ → τ → Prop) (a : SchemaNode σ) (b : SchemaNode τ) : Prop :=
  List.Forall₂ (List.Forall₂ (OnChildren R)) a.parts b.parts

variable {R : σ → τ → Prop} {a : SchemaNode σ} {b : SchemaNode τ}

lemma forall₂_map_edge_iff {edge : Edge} {as : List σ} {bs : List τ} :
    List.Forall₂ (OnChildren R) (as.map fun child => (edge, child))
        (bs.map fun child => (edge, child))
      ↔ List.Forall₂ R as bs := by
  simp [List.forall₂_map_left_iff, List.forall₂_map_right_iff, OnChildren]

lemma forall₂_map_property_iff {as : List (String × σ)} {bs : List (String × τ)} :
    List.Forall₂ (OnChildren R) (as.map fun (name, child) => (Edge.property name, child))
        (bs.map fun (name, child) => (Edge.property name, child))
      ↔ List.Forall₂ (fun x y => x.1 = y.1 ∧ R x.2 y.2) as bs := by
  simp [List.forall₂_map_left_iff, List.forall₂_map_right_iff, OnChildren]

lemma similar_iff :
    Similar R a b
      ↔ List.Forall₂ (fun x y => x.1 = y.1 ∧ R x.2 y.2) a.properties b.properties
        ∧ List.Forall₂ R a.items.toList b.items.toList
        ∧ List.Forall₂ R a.additional.toList b.additional.toList
        ∧ ∀ kind, List.Forall₂ R (a.composition kind) (b.composition kind) := by
  simp only [Similar, parts, List.forall₂_cons, forall₂_map_property_iff, forall₂_map_edge_iff,
    List.forall₂_nil_left_iff, and_true]
  constructor
  · rintro ⟨hproperties, hitems, hadditional, honeOf, hanyOf, hallOf⟩
    exact ⟨hproperties, hitems, hadditional, by rintro (_ | _ | _) <;> assumption⟩
  · rintro ⟨hproperties, hitems, hadditional, hmembers⟩
    exact ⟨hproperties, hitems, hadditional, hmembers .oneOf, hmembers .anyOf, hmembers .allOf⟩

/-- All children of similar schemas are related, in the order of a walk. -/
lemma Similar.forall₂_children (h : Similar R a b) :
    List.Forall₂ (OnChildren R) a.children b.children := by
  rw [children_eq_flatten_parts, children_eq_flatten_parts]
  exact List.rel_flatten h

/-- What a relation says of two slots that hold at most one child. -/
lemma exists_of_forall₂_toList {x : Option σ} {y : Option τ}
    (h : List.Forall₂ R x.toList y.toList) :
    (x = none ∧ y = none) ∨ ∃ s t, x = some s ∧ y = some t ∧ R s t := by
  cases x <;> cases y <;> simp_all

/-- The fields of one name in two tables with the same names. -/
lemma find?_of_forall₂ {xs : List (String × σ)} {ys : List (String × τ)}
    (h : List.Forall₂ (fun x y => x.1 = y.1 ∧ R x.2 y.2) xs ys) (name : String) :
    (Fields.find? xs name = none ∧ Fields.find? ys name = none)
      ∨ ∃ s t, Fields.find? xs name = some s ∧ Fields.find? ys name = some t ∧ R s t := by
  induction h with
  | nil => exact .inl ⟨rfl, rfl⟩
  | @cons x y xs ys head _ ih =>
    obtain ⟨hname, hR⟩ := head
    by_cases hx : x.1 = name
    · have hy : y.1 = name := hname ▸ hx
      exact .inr ⟨x.2, y.2, by simp [Fields.find?, hx], by simp [Fields.find?, hy], hR⟩
    · have hy : y.1 ≠ name := hname ▸ hx
      simpa [Fields.find?, hx, hy] using ih

end SchemaNode

end ApiLint
