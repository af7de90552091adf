import ApiLint.Proofs.Document.Rendering
import ApiLint.Proofs.Schema.Sound

/-!
# Where chains of aliases end

A chain of aliases that ends does so after a number of steps that belongs to its first name, and so
no name stands on it twice. For this reason the search for the end, which gives up on a name that
comes back and after as many steps as there are components, finds every end that there is.
-/

namespace ApiLint

namespace Components

/-- The chain of aliases from a name ends after a number of steps at a component that is no
alias. -/
inductive EndsIn (cs : Components) (target : String) (shape : Raw) : Nat → String → Prop
  | stop (hshape : Entries.field? cs.entries target = some shape)
      (hplain : reference? shape = none) : EndsIn cs target shape 0 target
  | step {steps : Nat} {name next : String} {body : Raw}
      (hbody : Entries.field? cs.entries name = some body)
      (hnext : cs.referredName? body = some next) (h : EndsIn cs target shape steps next) :
      EndsIn cs target shape (steps + 1) name

/-- The chain of aliases from a name ends at a component. -/
def EndsAt (cs : Components) (name target : String) (shape : Raw) : Prop :=
  ∃ steps, cs.EndsIn target shape steps name

variable {cs : Components} {name target : String} {body shape : Raw}

lemma mem_names_of_field? (h : Entries.field? cs.entries name = some body) : name ∈ cs.names :=
  List.mem_map.mpr ⟨_, Entries.mem_of_field? h, rfl⟩

lemma EndsIn.exists_body {steps : Nat} (h : cs.EndsIn target shape steps name) :
    ∃ body, Entries.field? cs.entries name = some body := by
  cases h with
  | stop hshape => exact ⟨_, hshape⟩
  | step hbody => exact ⟨_, hbody⟩

lemma EndsAt.exists_body (h : cs.EndsAt name target shape) :
    ∃ body, Entries.field? cs.entries name = some body := by
  obtain ⟨steps, h⟩ := h
  exact h.exists_body

lemma EndsAt.mem_names (h : cs.EndsAt name target shape) : name ∈ cs.names := by
  obtain ⟨body, hbody⟩ := h.exists_body
  exact mem_names_of_field? hbody

lemma EndsIn.target_found {steps : Nat} (h : cs.EndsIn target shape steps name) :
    Entries.field? cs.entries target = some shape ∧ reference? shape = none := by
  induction h with
  | stop hshape hplain => exact ⟨hshape, hplain⟩
  | step _ _ _ ih => exact ih

lemma reference?_of_referredName? {next : String} (h : cs.referredName? body = some next) :
    ∃ text, reference? body = some (.str text) ∧ cs.referenceName? text = some next := by
  rw [referredName?] at h
  split at h
  · next text hreference => exact ⟨text, hreference, h⟩
  · cases h

lemma referredName?_of_reference? {text : String} (h : reference? body = some (.str text)) :
    cs.referredName? body = cs.referenceName? text := by
  rw [referredName?, h]

/-- A name has one chain. -/
lemma EndsIn.unique {steps steps' : Nat} {target' : String} {shape' : Raw}
    (h : cs.EndsIn target shape steps name) (h' : cs.EndsIn target' shape' steps' name) :
    steps = steps' ∧ target = target' ∧ shape = shape' := by
  -- A name has one body, which is a reference or none, so both chains stop or go on together.
  induction h generalizing steps' with
  | stop hshape hplain =>
    cases h' with
    | stop hshape' _ =>
      rw [hshape] at hshape'
      exact ⟨rfl, rfl, Option.some.inj hshape'⟩
    | step hbody hnext _ =>
      rw [hshape] at hbody
      cases hbody
      obtain ⟨_, hreference, _⟩ := reference?_of_referredName? hnext
      simp [hplain] at hreference
  | step hbody hnext _ ih =>
    cases h' with
    | stop hshape hplain =>
      rw [hbody] at hshape
      cases hshape
      obtain ⟨_, hreference, _⟩ := reference?_of_referredName? hnext
      simp [hplain] at hreference
    | step hbody' hnext' h' =>
      rw [hbody] at hbody'
      cases hbody'
      rw [hnext] at hnext'
      cases hnext'
      obtain ⟨rfl, heq⟩ := ih h'
      exact ⟨rfl, heq⟩

lemma EndsAt.unique {target' : String} {shape' : Raw} (h : cs.EndsAt name target shape)
    (h' : cs.EndsAt name target' shape') : target = target' ∧ shape = shape' := by
  obtain ⟨_, h⟩ := h
  obtain ⟨_, h'⟩ := h'
  exact (h.unique h').2

/-- A component ends its own chain if and only if it is no alias. -/
lemma EndsAt.target_eq_iff (h : cs.EndsAt name target shape)
    (hbody : Entries.field? cs.entries name = some body) :
    target = name ↔ reference? body = none := by
  obtain ⟨steps, h⟩ := h
  cases h with
  | stop hshape hplain =>
    rw [hbody] at hshape
    cases hshape
    simp [hplain]
  | step hbody' hnext h =>
    rw [hbody] at hbody'
    cases hbody'
    obtain ⟨text, hreference, _⟩ := reference?_of_referredName? hnext
    simp only [hreference, reduceCtorEq, iff_false]
    rintro rfl
    obtain ⟨hshape, hplain⟩ := h.target_found
    rw [hbody] at hshape
    cases hshape
    simp [hplain] at hreference

/-! ### Following a chain -/

/-- Where aliases are followed to an end, the chain ends. -/
lemma endsIn_of_follow {pointer : Pointer} {steps : Nat} {chain : List String}
    (hbody : Entries.field? cs.entries name = some body)
    (h : cs.follow pointer steps (name :: chain) body = .ok (target, shape)) :
    cs.EndsAt name target shape := by
  induction steps generalizing name chain body with
  | zero => cases h
  | succ steps ih =>
    rcases follow_succ_eq_ok h with ⟨hnone, heq⟩ | ⟨text, next, body', hsome, hname, _, hnext, h⟩
    · cases heq
      exact ⟨0, .stop hbody hnone⟩
    · obtain ⟨length, hends⟩ := ih hnext h
      exact ⟨length + 1, .step hbody ((referredName?_of_reference? hsome).trans hname) hends⟩

/-- The names on a chain behind the first one are distinct. -/
lemma EndsIn.exists_names {steps : Nat} (h : cs.EndsIn target shape steps name) :
    ∃ names : List String, names.length = steps ∧ names.Nodup ∧ names ⊆ cs.names
      ∧ ∀ other ∈ names, ∃ fewer < steps, cs.EndsIn target shape fewer other := by
  induction h with
  | stop => exact ⟨[], rfl, .nil, by simp, by simp⟩
  | @step steps name next body hbody hnext h ih =>
    obtain ⟨names, rfl, hnodup, hsubset, hfewer⟩ := ih
    refine ⟨next :: names, rfl, List.nodup_cons.mpr ⟨?_, hnodup⟩, ?_, ?_⟩
    · intro hmem
      -- A name that came back would have chains of two lengths.
      obtain ⟨fewer, hlt, hends⟩ := hfewer next hmem
      have := (h.unique hends).1
      omega
    · exact List.cons_subset.mpr ⟨EndsAt.mem_names ⟨_, h⟩, hsubset⟩
    · intro other hother
      rcases List.mem_cons.mp hother with rfl | hother
      · exact ⟨_, Nat.lt_succ_self _, h⟩
      · obtain ⟨fewer, hlt, hends⟩ := hfewer other hother
        exact ⟨fewer, Nat.lt_succ_of_lt hlt, hends⟩

/-- A chain has no more steps than there are components. -/
lemma EndsIn.le_length {steps : Nat} (h : cs.EndsIn target shape steps name) :
    steps ≤ cs.entries.length := by
  obtain ⟨names, rfl, hnodup, hsubset, _⟩ := h.exists_names
  have hle := (List.subperm_of_subset hnodup hsubset).length_le
  simpa [Components.names] using hle

/-- A chain that ends is followed to its end, if the names before have at least as many steps to
go. -/
lemma EndsIn.follow_eq {steps fuel : Nat} (h : cs.EndsIn target shape steps name)
    (hbody : Entries.field? cs.entries name = some body) (hfuel : steps < fuel) (pointer : Pointer)
    {chain : List String}
    (hchain : ∀ other ∈ chain, ∃ more ≥ steps, cs.EndsIn target shape more other) :
    cs.follow pointer fuel (name :: chain) body = .ok (target, shape) := by
  induction h generalizing fuel chain body with
  | stop hshape hplain =>
    obtain ⟨fuel, rfl⟩ := Nat.exists_eq_add_one_of_ne_zero (by omega : fuel ≠ 0)
    rw [hbody] at hshape
    cases hshape
    rw [follow, hplain]
    rfl
  | @step steps name next body' hbody' hnext h ih =>
    obtain ⟨fuel, rfl⟩ := Nat.exists_eq_add_one_of_ne_zero (by omega : fuel ≠ 0)
    rw [hbody] at hbody'
    cases hbody'
    obtain ⟨text, hreference, hname⟩ := reference?_of_referredName? hnext
    obtain ⟨nextBody, hnextBody⟩ := h.exists_body
    have hlonger : ∀ other ∈ name :: chain, ∃ more ≥ steps + 1,
        cs.EndsIn target shape more other := by
      intro other hother
      rcases List.mem_cons.mp hother with rfl | hother
      · exact ⟨_, Nat.le_refl _, .step hbody hnext h⟩
      · exact hchain other hother
    -- The names that were passed have longer chains than the next one, so it is none of them.
    have hnew : next ∉ name :: chain := by
      intro hmem
      obtain ⟨more, hle, hends⟩ := hlonger next hmem
      have := (h.unique hends).1
      omega
    have hresolve : cs.resolve pointer (.str text) = .ok next := by
      rw [resolve, hname]
      exact if_pos (mem_names_of_field? hnextBody)
    rw [follow, hreference]
    simp only [hresolve, bind, Except.bind, if_neg hnew, hnextBody]
    apply ih hnextBody (by omega)
    intro other hother
    obtain ⟨more, hle, hends⟩ := hlonger other hother
    exact ⟨more, by omega, hends⟩

/-- A component takes its shape from the end of its chain of aliases. -/
lemma aliasTarget_eq_ok_iff (hbody : Entries.field? cs.entries name = some body) :
    cs.aliasTarget name body = .ok (target, shape) ↔ cs.EndsAt name target shape := by
  constructor
  · exact endsIn_of_follow hbody
  · rintro ⟨steps, h⟩
    exact h.follow_eq hbody (Nat.lt_succ_of_le h.le_length) _ (by simp)

/-- A reference governs by the shape at the end of the chain of aliases. -/
lemma governing?_of_endsAt {raw : Raw} {es : Entries} (hname : cs.referredName? raw = some name)
    (h : cs.EndsAt name target (.dict es)) : cs.governing? raw = some es := by
  obtain ⟨text, hreference, htext⟩ := reference?_of_referredName? hname
  obtain ⟨_, hbody⟩ := h.exists_body
  cases raw with
  | dict entries =>
    exact governing?_reference hreference htext hbody ((aliasTarget_eq_ok_iff hbody).mpr h)
  | _ => cases hreference

/-! ### Aliases -/

lemma aliasOf?_of_endsAt {e : Raw × Raw} (hbody : Entries.field? cs.entries e.1.text = some e.2)
    (h : cs.EndsAt e.1.text target shape) :
    cs.aliasOf? e = if target = e.1.text then none else some (e.1.text, target) := by
  simp only [aliasOf?, (aliasTarget_eq_ok_iff hbody).mpr h]

end Components

namespace LoadedDocument

variable {document : Raw} {d : LoadedDocument} {cs : Components}

/-- The aliases of a loaded document are the components whose chains end at another one. -/
lemma find?_aliases_eq_some_iff (hdocument : document.isTextKeyed = true)
    (hcs : Components.ofDocument document = .ok cs) (h : ofRaw document = .ok d)
    {name target : String} :
    Fields.find? d.aliases name = some target
      ↔ target ≠ name ∧ ∃ shape, cs.EndsAt name target shape := by
  have hkeyed := Components.isTextKeyed_of_ofDocument hdocument hcs
  rw [aliases_eq hdocument hcs h]
  constructor
  · intro hfind
    obtain ⟨e, he, hdeclared⟩ := List.mem_filterMap.mp (Fields.mem_of_find? hfind)
    obtain ⟨rfl, hne, shape, htarget⟩ := Components.aliasOf?_eq_some hdeclared
    have hbody := Raw.field?_text_of_mem hkeyed he
    exact ⟨hne, shape, (Components.aliasTarget_eq_ok_iff hbody).mp htarget⟩
  · rintro ⟨hne, shape, hends⟩
    obtain ⟨e, he, rfl⟩ := List.mem_map.mp hends.mem_names
    rw [Components.find?_aliases (Components.nodup_names hkeyed) he,
      Components.aliasOf?_of_endsAt (Raw.field?_text_of_mem hkeyed he) hends, if_neg hne]
    rfl

/-- Whether a component is an alias, and for which one, the end of its chain says. -/
lemma find?_aliases_of_endsAt (hdocument : document.isTextKeyed = true)
    (hcs : Components.ofDocument document = .ok cs) (h : ofRaw document = .ok d)
    {name target : String} {shape : Raw} (hends : cs.EndsAt name target shape) :
    Fields.find? d.aliases name = if target = name then none else some target := by
  split
  · next heq =>
    rw [Option.eq_none_iff_forall_ne_some]
    intro other hother
    obtain ⟨hne, _, hends'⟩ := (find?_aliases_eq_some_iff hdocument hcs h).mp hother
    exact hne ((hends'.unique hends).1.trans heq)
  · next hne => exact (find?_aliases_eq_some_iff hdocument hcs h).mpr ⟨hne, shape, hends⟩

end LoadedDocument

end ApiLint
