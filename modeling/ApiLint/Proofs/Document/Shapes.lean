import ApiLint.Proofs.Document.Failures
import ApiLint.Proofs.Matching.Departures
import ApiLint.Proofs.Matching.Hints
import ApiLint.Proofs.Raw.Address

/-!
# The shape of a converted literal

A raw literal is converted part by part, in the order of reading, and each part has a path and a raw
schema that governs it. The first part at which something is wrong decides the error: its schema
cannot be looked up, it lies too deep, or it is a scalar that no literal holds. Where nothing is
wrong, the literal has the shape of the raw one, and the schemas have chosen nothing but the kinds
and the payloads of its scalars.
-/

namespace ApiLint

/-! ### Shapes -/

/-- What is left of a value without the kinds and the payloads of its scalars. -/
inductive Shape
  | scalar
  | foreign
  | array (items : List Shape)
  | object (members : List (String × Shape))

namespace Raw

mutual

/-- The shape of a raw value of lists, mappings and scalars. -/
def shape : Raw → Shape
  | .list items => .array (shapes items)
  | .dict es => .object (entryShapes es)
  | _ => .scalar

def shapes : List Raw → List Shape
  | [] => []
  | x :: xs => x.shape :: shapes xs

def entryShapes : List (Raw × Raw) → List (String × Shape)
  | [] => []
  | (key, value) :: es => (key.text, value.shape) :: entryShapes es

end

end Raw

namespace Literal

mutual

/-- The shape of a literal. -/
def shape : Literal → Shape
  | .array items => .array (shapes items)
  | .object members => .object (memberShapes members)
  | .foreign _ => .foreign
  | .scalar .. => .scalar

def shapes : List Literal → List Shape
  | [] => []
  | x :: xs => x.shape :: shapes xs

def memberShapes : List (String × Literal) → List (String × Shape)
  | [] => []
  | (name, value) :: members => (name, value.shape) :: memberShapes members

end

end Literal

/-! ### Visits -/

/-- A part of a raw literal as it is come to: the path to it, and the raw schema that governs it,
unless that cannot be looked up. -/
structure Arrival where
  path : List String
  schema : Except LoadError Raw
  part : Raw

namespace Components

mutual

/-- The parts of a raw literal in the order of reading, given the path to it and its raw schema. -/
def visits (cs : Components) (path : List String) (schema : Except LoadError Raw) :
    Raw → List Arrival
  | .list items =>
    ⟨path, schema, .list items⟩
      :: itemVisits cs path (schema.map fun s => itemSchema (cs.governing? s)) 0 items
  | .dict es => ⟨path, schema, .dict es⟩ :: memberVisits cs path (schema.map cs.governing?) es
  | raw => [⟨path, schema, raw⟩]

/-- The parts of the elements of a list, the first of which has the given index. -/
def itemVisits (cs : Components) (path : List String) (schema : Except LoadError Raw)
    (index : Nat) : List Raw → List Arrival
  | [] => []
  | x :: xs =>
    visits cs (path ++ [writtenNat index]) schema x ++ itemVisits cs path schema (index + 1) xs

/-- The parts of the members of a mapping. -/
def memberVisits (cs : Components) (path : List String)
    (governing : Except LoadError (Option Entries)) : List (Raw × Raw) → List Arrival
  | [] => []
  | (key, value) :: es =>
    visits cs (path ++ [key.text]) (governing.bind fun g => memberSchema g key.text) value
      ++ memberVisits cs path governing es

end

end Components

namespace Arrival

/-- What is wrong with a part whatever its depth: its schema cannot be looked up, or it is a scalar
that does not convert. -/
def fault? (cs : Components) (v : Arrival) : Option LoadError :=
  match v.schema with
  | .error e => some e
  | .ok schema =>
    match v.part with
    | .list _ | .dict _ => none
    | raw => errorOf? (Components.plainLiteral (cs.governing? schema) raw)

/-- The error that ends the conversion at a part: the schema of the part is looked up first, then
its depth counts. -/
def stop? (cs : Components) (v : Arrival) : Option LoadError :=
  match v.schema with
  | .error e => some e
  | .ok _ =>
    if LoadError.literalDepthLimit < v.path.length then some .literalTooDeep else v.fault? cs

end Arrival

namespace Components

variable {cs : Components} {path : List String} {schema : Raw} {raw : Raw}

/-- The first visit is that of the whole. -/
lemma visits_eq_cons (cs : Components) (path : List String) (schema : Except LoadError Raw)
    (raw : Raw) : ∃ others, cs.visits path schema raw = ⟨path, schema, raw⟩ :: others := by
  cases raw with
  | list items => exact ⟨_, by rw [visits]⟩
  | dict es => exact ⟨_, by rw [visits]⟩
  | _ => exact ⟨[], rfl⟩

lemma visits_plain (hlist : ∀ items, raw ≠ .list items) (hdict : ∀ es, raw ≠ .dict es)
    (schema : Except LoadError Raw) : cs.visits path schema raw = [⟨path, schema, raw⟩] := by
  rw [visits]
  · exact hlist
  · exact hdict

lemma findSome?_visits {schema : Except LoadError Raw} {e : LoadError}
    (h : Arrival.stop? cs ⟨path, schema, raw⟩ = some e) :
    (cs.visits path schema raw).findSome? (Arrival.stop? cs) = some e := by
  obtain ⟨others, hvisits⟩ := cs.visits_eq_cons path schema raw
  rw [hvisits, List.findSome?_cons, h]

lemma errorOf?_literalAt_plain (hlist : ∀ items, raw ≠ .list items) (hdict : ∀ es, raw ≠ .dict es)
    (hdeep : ¬LoadError.literalDepthLimit < path.length) :
    errorOf? (cs.literalAt schema path.length raw)
      = (cs.visits path (.ok schema) raw).findSome? (Arrival.stop? cs) := by
  have hstop : Arrival.stop? cs ⟨path, .ok schema, raw⟩
      = Arrival.fault? cs ⟨path, .ok schema, raw⟩ := if_neg hdeep
  rw [literalAt_plain hlist hdict, if_neg hdeep, visits_plain hlist hdict,
    List.findSome?_singleton, hstop]
  cases raw with
  | list items => exact absurd rfl (hlist items)
  | dict es => exact absurd rfl (hdict es)
  | _ => rfl

mutual

/-- A conversion ends with what is wrong at the first visit at which something is. -/
lemma errorOf?_literalAt (raw : Raw) (hraw : raw.isTextKeyed = true) (path : List String)
    (schema : Raw) : errorOf? (cs.literalAt schema path.length raw)
      = (cs.visits path (.ok schema) raw).findSome? (Arrival.stop? cs) := by
  by_cases hdeep : LoadError.literalDepthLimit < path.length
  · have hstop : Arrival.stop? cs ⟨path, .ok schema, raw⟩ = some .literalTooDeep := if_pos hdeep
    rw [findSome?_visits hstop, literalAt.eq_def, if_pos hdeep, errorOf?_error]
  · match raw, hraw with
    | .list items, hraw =>
      have hstop : Arrival.stop? cs ⟨path, .ok schema, .list items⟩ = none := if_neg hdeep
      rw [literalAt, if_neg hdeep, visits, List.findSome?_cons, hstop, errorOf?_bind_pure]
      exact errorOf?_literalItems items hraw path _ 0
    | .dict es, hraw =>
      have hstop : Arrival.stop? cs ⟨path, .ok schema, .dict es⟩ = none := if_neg hdeep
      rw [literalAt, if_neg hdeep, visits, List.findSome?_cons, hstop, errorOf?_bind_pure]
      exact errorOf?_literalMembers es hraw path _ []
    | .null, _ | .bool _, _ | .int _, _ | .float _, _ | .str _, _ | .bytes _, _ | .date _, _
    | .dateTime _, _ => exact errorOf?_literalAt_plain nofun nofun hdeep

lemma errorOf?_literalItems : ∀ (raws : List Raw), Raw.allTextKeyed raws = true →
    ∀ (path : List String) (schema : Raw) (index : Nat),
      errorOf? (cs.literalItems schema (path.length + 1) raws)
        = (cs.itemVisits path (.ok schema) index raws).findSome? (Arrival.stop? cs)
  | [], _, _, _, _ => rfl
  | x :: xs, hraws, path, schema, index => by
    rw [Raw.allTextKeyed, Bool.and_eq_true] at hraws
    have hitem := errorOf?_literalAt x hraws.1 (path ++ [writtenNat index]) schema
    rw [List.length_append, List.length_singleton] at hitem
    rw [literalItems, itemVisits, List.findSome?_append, ← hitem]
    refine errorOf?_bind fun item => ?_
    rw [errorOf?_bind_pure]
    exact errorOf?_literalItems xs hraws.2 path schema (index + 1)

lemma errorOf?_literalMembers : ∀ (es : List (Raw × Raw)), (Raw.dict es).isTextKeyed = true →
    ∀ (path : List String) (governing : Option Entries) (members : Fields Literal),
      errorOf? (cs.literalMembers governing (path.length + 1) members es)
        = (cs.memberVisits path (.ok governing) es).findSome? (Arrival.stop? cs)
  | [], _, _, _, _ => rfl
  | (key, value) :: es, hes, path, governing, members => by
    obtain ⟨⟨name, hkey, -⟩, hvalue, hothers⟩ := Raw.isTextKeyed_dict_cons hes
    have hname : requireNames [key] = .ok () := by
      rw [show key = .str name from hkey]
      rfl
    rw [literalMembers, hname, memberVisits, List.findSome?_append]
    change errorOf? (memberSchema governing key.text >>= _)
      = ((cs.visits _ (memberSchema governing key.text) value).findSome? _).or _
    cases hschema : memberSchema governing key.text with
    | error e =>
      rw [findSome?_visits rfl]
      rfl
    | ok schema =>
      have hmember := errorOf?_literalAt value hvalue (path ++ [key.text]) schema
      rw [List.length_append, List.length_singleton] at hmember
      rw [← hmember]
      change errorOf? (cs.literalAt schema (path.length + 1) value >>= _) = _
      exact errorOf?_bind fun member => errorOf?_literalMembers es hothers path governing _

end

/-! ### Parts and routes -/

variable (cs) in
/-- A part directly in another one, each as it is visited. -/
inductive Holds : Arrival → Arrival → Prop
  | item {path : List String} {schema : Except LoadError Raw} {items : List Raw} {index : Nat}
      {x : Raw} (found : items[index]? = some x) :
      Holds ⟨path, schema, .list items⟩
        ⟨path ++ [writtenNat index], schema.map fun s => itemSchema (cs.governing? s), x⟩
  | member {path : List String} {schema : Except LoadError Raw} {es : List (Raw × Raw)}
      {e : Raw × Raw} (found : e ∈ es) :
      Holds ⟨path, schema, .dict es⟩
        ⟨path ++ [e.1.text], (schema.map cs.governing?).bind fun g => memberSchema g e.1.text, e.2⟩

mutual

/-- What a part hands on to the parts in it holds at every visit, if it holds at the first. -/
lemma forall_mem_visits {P : Arrival → Prop} (hstep : ∀ v w, cs.Holds v w → P v → P w) (raw : Raw)
    (path : List String) (schema : Except LoadError Raw) (h : P ⟨path, schema, raw⟩) :
    ∀ v ∈ cs.visits path schema raw, P v := by
  match raw with
  | .list items =>
    rw [visits, List.forall_mem_cons]
    refine ⟨h, forall_mem_itemVisits hstep items path _ 0 fun i x hx => ?_⟩
    rw [Nat.zero_add]
    exact hstep _ _ (.item hx) h
  | .dict es =>
    rw [visits, List.forall_mem_cons]
    exact ⟨h, forall_mem_memberVisits hstep es path _ fun e he => hstep _ _ (.member he) h⟩
  | .null | .bool _ | .int _ | .float _ | .str _ | .bytes _ | .date _ | .dateTime _ | .set _
  | .pair .. => exact List.forall_mem_singleton.mpr h

lemma forall_mem_itemVisits {P : Arrival → Prop} (hstep : ∀ v w, cs.Holds v w → P v → P w)
    (raws : List Raw) (path : List String) (schema : Except LoadError Raw) (index : Nat)
    (h : ∀ i x, raws[i]? = some x → P ⟨path ++ [writtenNat (index + i)], schema, x⟩) :
    ∀ v ∈ cs.itemVisits path schema index raws, P v := by
  match raws with
  | [] => exact nofun
  | x :: xs =>
    rw [itemVisits, List.forall_mem_append]
    refine ⟨forall_mem_visits hstep x _ _ (h 0 x rfl),
      forall_mem_itemVisits hstep xs _ _ _ fun i y hy => ?_⟩
    rw [Nat.add_assoc, Nat.add_comm 1]
    exact h (i + 1) y hy

lemma forall_mem_memberVisits {P : Arrival → Prop} (hstep : ∀ v w, cs.Holds v w → P v → P w)
    (es : List (Raw × Raw)) (path : List String) (governing : Except LoadError (Option Entries))
    (h : ∀ e ∈ es, P ⟨path ++ [e.1.text], governing.bind fun g => memberSchema g e.1.text, e.2⟩) :
    ∀ v ∈ cs.memberVisits path governing es, P v := by
  match es with
  | [] => exact nofun
  | (key, value) :: es =>
    rw [memberVisits, List.forall_mem_append]
    obtain ⟨hvalue, hothers⟩ := List.forall_mem_cons.mp h
    exact ⟨forall_mem_visits hstep value _ _ hvalue, forall_mem_memberVisits hstep es _ _ hothers⟩

end

/-- Every visit is at the end of a route. -/
lemma route_of_mem_visits (hraw : raw.isTextKeyed = true) {schema : Except LoadError Raw} :
    ∀ v ∈ cs.visits [] schema raw, raw.Route v.path v.part ∧ v.part.isTextKeyed = true := by
  refine forall_mem_visits ?_ raw [] schema ⟨.here raw, hraw⟩
  rintro _ _ (⟨hfound⟩ | ⟨hfound⟩) ⟨hroute, hkeyed⟩
  · exact ⟨hroute.append (.ofItem hfound),
      Raw.isTextKeyed_of_mem_list hkeyed (List.mem_of_getElem? hfound)⟩
  · exact ⟨hroute.append (.ofField (Raw.field?_text_of_mem hkeyed hfound)),
      (Raw.isTextKeyed_of_mem_dict hkeyed hfound).2⟩

lemma mem_itemVisits {raws : List Raw} {schema : Except LoadError Raw} {index i : Nat} {x : Raw}
    (hx : raws[i]? = some x) {v : Arrival}
    (hv : v ∈ cs.visits (path ++ [writtenNat (index + i)]) schema x) :
    v ∈ cs.itemVisits path schema index raws := by
  induction raws generalizing index i with
  | nil => cases hx
  | cons y ys ih =>
    rw [itemVisits, List.mem_append]
    cases i with
    | zero =>
      cases hx
      exact .inl hv
    | succ i =>
      refine .inr (ih (i := i) hx ?_)
      rwa [Nat.add_assoc, Nat.add_comm 1]

lemma mem_memberVisits {es : List (Raw × Raw)} {governing : Except LoadError (Option Entries)}
    {e : Raw × Raw} (he : e ∈ es) {v : Arrival}
    (hv : v ∈ cs.visits (path ++ [e.1.text])
      (governing.bind fun g => memberSchema g e.1.text) e.2) :
    v ∈ cs.memberVisits path governing es := by
  induction es with
  | nil => cases he
  | cons f es ih =>
    rw [memberVisits, List.mem_append]
    rcases List.mem_cons.mp he with rfl | he
    · exact .inl hv
    · exact .inr (ih he)

/-- At the end of every route there is a visit. -/
lemma exists_visit_of_route {segments : List String} {target : Raw}
    (hroute : raw.Route segments target) (path : List String) (schema : Except LoadError Raw) :
    ∃ v ∈ cs.visits path schema raw, v.path = path ++ segments ∧ v.part = target := by
  induction hroute generalizing path schema with
  | here raw =>
    obtain ⟨others, hvisits⟩ := cs.visits_eq_cons path schema raw
    exact ⟨_, hvisits ▸ List.mem_cons_self .., (List.append_nil path).symm, rfl⟩
  | @field es name value target segments found _ ih =>
    obtain ⟨v, hv, hpath, hpart⟩ := ih (path ++ [name])
      ((schema.map cs.governing?).bind fun g => memberSchema g name)
    refine ⟨v, ?_, by simpa using hpath, hpart⟩
    rw [visits]
    exact List.mem_cons_of_mem _ (mem_memberVisits (Entries.mem_of_field? found) hv)
  | @item items index x target segments found _ ih =>
    obtain ⟨v, hv, hpath, hpart⟩ := ih (path ++ [writtenNat index])
      (schema.map fun s => itemSchema (cs.governing? s))
    refine ⟨v, ?_, by simpa using hpath, hpart⟩
    rw [visits]
    exact List.mem_cons_of_mem _ (mem_itemVisits found (by rwa [Nat.zero_add]))

/-! ### What ends a conversion -/

lemma plainLiteral_ne_tooDeep (governing : Option Entries) (raw : Raw) :
    plainLiteral governing raw ≠ .error .literalTooDeep := by
  rw [plainLiteral]
  generalize Literal.ofRaw _ _ raw = x
  cases x <;> simp [Except.mapError]

lemma onlyFails_searchFor (text : String) (raw : Raw) :
    OnlyFails (fun e => e.isReported = false) (raw.searchFor text) := by
  unfold Raw.searchFor
  split
  · exact .ok _
  · exact .error rfl
  · split
    · exact .ok _
    · exact .error rfl

/-- A schema of a member that cannot be looked up is no error of the document. -/
lemma onlyFails_memberSchema (governing : Option Entries) (name : String) :
    OnlyFails (fun e => e.isReported = false) (memberSchema governing name) := by
  cases governing with
  | none => exact .ok _
  | some es =>
    have hproperty : OnlyFails (fun e => e.isReported = false)
        (propertySchema? name (es.field "properties")) := by
      unfold propertySchema?
      split
      · exact .ok _
      · split
        · exact .ok _
        · refine .bind (onlyFails_searchFor name _) fun isThere _ => ?_
          cases isThere
          · exact .ok _
          · exact .error rfl
    refine .bind hproperty fun schema? _ => ?_
    cases schema? <;> exact .ok _

/-- No schema is missing because of the depth. -/
lemma schema_ne_tooDeep : ∀ v ∈ cs.visits path (.ok schema) raw,
    v.schema ≠ .error .literalTooDeep := by
  refine forall_mem_visits ?_ raw path (.ok schema) nofun
  rintro ⟨_, schema, _⟩ _ (_ | _) hne
  · cases schema with
    | error e => exact fun heq => hne (by cases heq; rfl)
    | ok schema => nofun
  · cases schema with
    | error e => exact fun heq => hne (by cases heq; rfl)
    | ok schema =>
      intro heq
      cases onlyFails_memberSchema _ _ _ heq

end Components

namespace Arrival

variable {cs : Components} {v : Arrival}

lemma fault?_ne_tooDeep (hschema : v.schema ≠ .error .literalTooDeep) :
    v.fault? cs ≠ some .literalTooDeep := by
  rw [fault?]
  split
  · next e heq => exact fun h => hschema (heq.trans (congrArg _ (Option.some.inj h)))
  · split
    · nofun
    · nofun
    · exact fun h => Components.plainLiteral_ne_tooDeep _ _ (errorOf?_eq_some_iff.mp h)

lemma stop?_eq_none_iff : v.stop? cs = none
    ↔ v.path.length ≤ LoadError.literalDepthLimit ∧ v.fault? cs = none := by
  rw [stop?, ← not_lt]
  split
  · next heq => simp [fault?, heq]
  · split <;> simp_all

/-- Where nothing but the depth can be wrong, nothing but the depth ends a conversion. -/
lemma stop?_of_fault?_eq_none (h : v.fault? cs = none) :
    v.stop? cs = none ∨ v.stop? cs = some .literalTooDeep := by
  rw [stop?]
  split
  · next heq => simp [fault?, heq] at h
  · split
    · exact .inr rfl
    · exact .inl h

lemma stop?_eq_tooDeep_iff (hschema : v.schema ≠ .error .literalTooDeep) :
    v.stop? cs = some .literalTooDeep
      ↔ LoadError.literalDepthLimit < v.path.length ∧ ∃ governing, v.schema = .ok governing := by
  rw [stop?]
  split
  · next e heq =>
    have hne : e ≠ .literalTooDeep := fun h => hschema (h ▸ heq)
    simpa [heq] using hne
  · next governing heq =>
    split
    · next hdeep => exact iff_of_true rfl ⟨hdeep, governing, heq⟩
    · next hdeep => exact iff_of_false (fault?_ne_tooDeep hschema) fun h => hdeep h.1

end Arrival

namespace Components

variable {cs : Components} {schema raw : Raw}

lemma errorOf?_literalAt_zero (hraw : raw.isTextKeyed = true) : errorOf? (cs.literalAt schema 0 raw)
    = (cs.visits [] (.ok schema) raw).findSome? (Arrival.stop? cs) :=
  errorOf?_literalAt raw hraw [] schema

/-- The depth ends a conversion exactly if a part is too deep before which nothing else is wrong. -/
lemma literalAt_eq_tooDeep_iff (hraw : raw.isTextKeyed = true) :
    cs.literalAt schema 0 raw = .error .literalTooDeep
      ↔ ∃ front v back governing, cs.visits [] (.ok schema) raw = front ++ v :: back
        ∧ LoadError.literalDepthLimit < v.path.length ∧ v.schema = .ok governing
        ∧ ∀ u ∈ front, u.fault? cs = none := by
  have hschemas : ∀ v ∈ cs.visits [] (.ok schema) raw, v.schema ≠ .error .literalTooDeep :=
    schema_ne_tooDeep
  rw [← errorOf?_eq_some_iff, errorOf?_literalAt_zero hraw]
  constructor
  · intro h
    obtain ⟨front, v, back, hvisits, hstop, hfront⟩ := List.findSome?_eq_some_iff.mp h
    have hv : v ∈ cs.visits [] (.ok schema) raw := by simp [hvisits]
    obtain ⟨hdeep, governing, hgoverning⟩ := (Arrival.stop?_eq_tooDeep_iff (hschemas v hv)).mp hstop
    exact ⟨front, v, back, governing, hvisits, hdeep, hgoverning,
      fun u hu => (Arrival.stop?_eq_none_iff.mp (hfront u hu)).2⟩
  · rintro ⟨front, v, back, governing, hvisits, hdeep, hgoverning, hfront⟩
    have hv : v ∈ cs.visits [] (.ok schema) raw := by simp [hvisits]
    have hstop : v.stop? cs = some .literalTooDeep :=
      (Arrival.stop?_eq_tooDeep_iff (hschemas v hv)).mpr ⟨hdeep, governing, hgoverning⟩
    rw [hvisits, List.findSome?_append, List.findSome?_cons, hstop]
    cases hfirst : front.findSome? (Arrival.stop? cs) with
    | none => rfl
    | some e =>
      -- a part in front can only be too deep itself
      obtain ⟨u, hu, hsome⟩ := List.exists_of_findSome?_eq_some hfirst
      rcases Arrival.stop?_of_fault?_eq_none (hfront u hu) with hnone | hdeep
      · rw [hnone] at hsome
        cases hsome
      · rw [hdeep] at hsome
        exact hsome.symm

lemma exists_literalAt_iff (hraw : raw.isTextKeyed = true) :
    (∃ value, cs.literalAt schema 0 raw = .ok value)
      ↔ ∀ v ∈ cs.visits [] (.ok schema) raw,
        v.path.length ≤ LoadError.literalDepthLimit ∧ v.fault? cs = none := by
  rw [← errorOf?_eq_none_iff, errorOf?_literalAt_zero hraw, List.findSome?_eq_none_iff]
  exact forall₂_congr fun v _ => Arrival.stop?_eq_none_iff

/-! ### Without a schema -/

/-- Where no schema governs the whole, none governs a part. -/
lemma ungoverned_visits (h : cs.governing? schema = none) :
    ∀ v ∈ cs.visits [] (.ok schema) raw, ∃ s, v.schema = .ok s ∧ cs.governing? s = none := by
  have hnull : cs.governing? .null = none := governing?_eq_none rfl
  refine forall_mem_visits ?_ raw [] (.ok schema) ⟨schema, rfl, h⟩
  rintro _ _ (_ | _) ⟨s, rfl, hs⟩
  · refine ⟨.null, ?_, hnull⟩
    simp [Except.map, hs, itemSchema]
  · refine ⟨.null, ?_, hnull⟩
    simp [Except.map, Except.bind, hs, memberSchema]

lemma plainLiteral_none_eq_ok_iff {value : Literal} :
    plainLiteral none raw = .ok value ↔ Literal.ofRaw .null .null raw = .ok value :=
  mapError_eq_ok_iff

mutual

/-- Where no schema governs it, a raw literal is converted without hints. -/
lemma ofRaw_of_literalAt : ∀ (raw : Raw) {schema : Raw} {depth : Nat} {value : Literal},
    cs.governing? schema = none → cs.literalAt schema depth raw = .ok value →
    Literal.ofRaw .null .null raw = .ok value
  | .list items, schema, depth, value, hnone, h => by
    rw [literalAt, hnone] at h
    split at h
    · cases h
    · obtain ⟨values, hvalues, h⟩ := bind_eq_ok_iff.mp h
      cases h
      rw [Literal.ofRaw, ofItems_of_literalItems items hvalues]
      rfl
  | .dict es, schema, depth, value, hnone, h => by
    rw [literalAt, hnone] at h
    split at h
    · cases h
    · obtain ⟨members, hmembers, h⟩ := bind_eq_ok_iff.mp h
      cases h
      rw [Literal.ofRaw, ofEntries_of_literalMembers es hmembers]
      rfl
  | .null, schema, depth, value, hnone, h | .bool _, schema, depth, value, hnone, h
  | .int _, schema, depth, value, hnone, h | .float _, schema, depth, value, hnone, h
  | .str _, schema, depth, value, hnone, h | .bytes _, schema, depth, value, hnone, h
  | .date _, schema, depth, value, hnone, h | .dateTime _, schema, depth, value, hnone, h
  | .set _, schema, depth, value, hnone, h | .pair .., schema, depth, value, hnone, h => by
    rw [literalAt, hnone] at h
    · split at h
      · cases h
      · exact plainLiteral_none_eq_ok_iff.mp h
    · nofun
    · nofun

lemma ofItems_of_literalItems : ∀ (raws : List Raw) {depth : Nat} {values : List Literal},
    cs.literalItems .null depth raws = .ok values → Literal.ofItems raws = .ok values
  | [], _, _, h => by
    rw [literalItems] at h
    cases h
    rfl
  | x :: xs, depth, values, h => by
    rw [literalItems] at h
    obtain ⟨item, hitem, h⟩ := bind_eq_ok_iff.mp h
    obtain ⟨items, hitems, h⟩ := bind_eq_ok_iff.mp h
    cases h
    rw [Literal.ofItems, ofRaw_of_literalAt x (governing?_eq_none rfl) hitem,
      ofItems_of_literalItems xs hitems]
    rfl

lemma ofEntries_of_literalMembers : ∀ (es : List (Raw × Raw)) {depth : Nat}
    {before members : Fields Literal}, cs.literalMembers none depth before es = .ok members →
    Literal.ofEntries before es = .ok members
  | [], _, _, _, h => by
    rw [literalMembers] at h
    cases h
    rfl
  | (key, value) :: es, depth, before, members, h => by
    rw [literalMembers] at h
    obtain ⟨⟨⟩, hname, h⟩ := bind_eq_ok_iff.mp h
    obtain ⟨schema, hschema, h⟩ := bind_eq_ok_iff.mp h
    cases hschema
    obtain ⟨member, hmember, h⟩ := bind_eq_ok_iff.mp h
    have htext : (Raw.requireTexts [key]).mapError ConversionError.key = .ok () :=
      mapError_eq_ok_iff.mpr (mapError_eq_ok_iff.mp hname)
    rw [Literal.ofEntries, htext, ofRaw_of_literalAt value (governing?_eq_none rfl) hmember]
    exact ofEntries_of_literalMembers es h

end

/-! ### The shape of a literal -/

lemma shape_of_literalAt_plain {depth : Nat} {value : Literal}
    (h : cs.literalAt schema depth raw = .ok value) (hlist : ∀ items, raw ≠ .list items)
    (hpair : ∀ k v, raw ≠ .pair k v) (hdict : ∀ es, raw ≠ .dict es) : value.shape = .scalar := by
  rw [literalAt_plain hlist hdict] at h
  split at h
  · cases h
  · rw [plainLiteral, mapError_eq_ok_iff, Literal.ofRaw_plain hlist hpair hdict] at h
    obtain ⟨kind, payload, rfl, -⟩ := Literal.becomes_of_ofScalar h
    rfl

mutual

/-- A raw literal keeps its shape, whatever governs it. -/
lemma shape_of_literalAt : ∀ (raw : Raw) {schema : Raw} {depth : Nat} {value : Literal},
    raw.isTextKeyed = true → cs.literalAt schema depth raw = .ok value → value.shape = raw.shape
  | .list items, schema, depth, value, hraw, h => by
    rw [literalAt] at h
    split at h
    · cases h
    · obtain ⟨values, hvalues, h⟩ := bind_eq_ok_iff.mp h
      cases h
      rw [Raw.isTextKeyed] at hraw
      rw [Literal.shape, Raw.shape, shapes_of_forall₂ items hraw (literalItems_eq_ok hvalues)]
  | .dict es, schema, depth, value, hraw, h => by
    rw [literalAt] at h
    split at h
    · cases h
    · obtain ⟨members, hmembers, h⟩ := bind_eq_ok_iff.mp h
      cases h
      have hnames : (Fields.names ([] : Fields Literal) ++ es.map fun e => e.1.text).Nodup :=
        Raw.nodup_names hraw
      obtain ⟨more, rfl, hmore⟩ := literalMembers_eq_ok hnames hmembers
      rw [Literal.shape, Raw.shape, memberShapes_of_forall₂ es hraw hmore]
  | .null, _, _, _, _, h | .bool _, _, _, _, _, h | .int _, _, _, _, _, h | .float _, _, _, _, _, h
  | .str _, _, _, _, _, h | .bytes _, _, _, _, _, h | .date _, _, _, _, _, h
  | .dateTime _, _, _, _, _, h => shape_of_literalAt_plain h nofun nofun nofun

lemma shapes_of_forall₂ : ∀ (raws : List Raw) {schema : Raw} {depth : Nat} {values : List Literal},
    Raw.allTextKeyed raws = true →
    List.Forall₂ (fun raw value => cs.literalAt schema depth raw = .ok value) raws values →
    Literal.shapes values = Raw.shapes raws
  | [], _, _, _, _, .nil => rfl
  | x :: xs, _, _, _ :: _, hraws, .cons hvalue hvalues => by
    rw [Raw.allTextKeyed, Bool.and_eq_true] at hraws
    rw [Literal.shapes, Raw.shapes, shape_of_literalAt x hraws.1 hvalue,
      shapes_of_forall₂ xs hraws.2 hvalues]

lemma memberShapes_of_forall₂ : ∀ (es : List (Raw × Raw)) {governing : Option Entries}
    {depth : Nat} {members : Fields Literal}, (Raw.dict es).isTextKeyed = true →
    List.Forall₂ (fun e m => e.1.text = m.1
      ∧ ∃ schema, memberSchema governing e.1.text = .ok schema
        ∧ cs.literalAt schema depth e.2 = .ok m.2) es members →
    Literal.memberShapes members = Raw.entryShapes es
  | [], _, _, _, _, .nil => rfl
  | (key, raw) :: es, _, _, (name, value) :: members, hes,
      .cons ⟨hname, _, _, hvalue⟩ hmembers => by
    obtain ⟨-, hraw, hothers⟩ := Raw.isTextKeyed_dict_cons hes
    rw [Literal.memberShapes, Raw.entryShapes, shape_of_literalAt raw hraw hvalue,
      memberShapes_of_forall₂ es hothers hmembers]
    exact congrArg (fun text => (text, raw.shape) :: Raw.entryShapes es) hname.symm

end

/-- A scalar that is governed by nothing converts, unless it is a string of bytes. -/
lemma fault?_of_ungoverned {v : Arrival} (hv : v.part.isTextKeyed = true)
    (hbytes : ∀ bytes, v.part ≠ .bytes bytes) {schema : Raw} (hschema : v.schema = .ok schema)
    (hnone : cs.governing? schema = none) : v.fault? cs = none := by
  have hplain : ∀ raw : Raw, raw.isPlainScalar = true →
      errorOf? (plainLiteral none raw) = none := by
    intro raw hraw
    obtain ⟨kind, hkind⟩ := Literal.exists_becomes_unhinted hraw
    have hvalue := Literal.ofScalar_of_becomes hkind
    rw [← Literal.ofRaw_of_isPlainScalar hraw, ← plainLiteral_none_eq_ok_iff] at hvalue
    rw [hvalue, errorOf?_ok]
  obtain ⟨path, _, part⟩ := v
  subst hschema
  simp only [Arrival.fault?, hnone]
  cases part with
  | list | dict => rfl
  | bytes bs => exact absurd rfl (hbytes bs)
  | pair | set => cases hv
  | _ => exact hplain _ rfl

/-- No string of bytes converts. -/
lemma ne_bytes_of_fault? {v : Arrival} (h : v.fault? cs = none) (bytes : List UInt8) :
    v.part ≠ .bytes bytes := by
  intro hbytes
  rw [Arrival.fault?, hbytes] at h
  split at h
  · cases h
  · cases h

/-- Where a raw literal converts under a schema, it converts under none. -/
lemma exists_literalAt_null (hraw : raw.isTextKeyed = true)
    (h : ∃ value, cs.literalAt schema 0 raw = .ok value) :
    ∃ plain, cs.literalAt .null 0 raw = .ok plain := by
  have hnull : cs.governing? .null = none := governing?_eq_none rfl
  rw [exists_literalAt_iff hraw] at h ⊢
  intro v hv
  obtain ⟨hroute, hkeyed⟩ := route_of_mem_visits hraw v hv
  obtain ⟨w, hw, hpath, hpart⟩ : ∃ w ∈ cs.visits [] (.ok schema) raw, w.path = [] ++ v.path
      ∧ w.part = v.part := exists_visit_of_route hroute [] (.ok schema)
  obtain ⟨hlength, hfault⟩ := h w hw
  obtain ⟨s, hs, hnone⟩ := ungoverned_visits hnull v hv
  rw [hpath, List.nil_append] at hlength
  exact ⟨hlength, fault?_of_ungoverned hkeyed (hpart ▸ ne_bytes_of_fault? hfault) hs hnone⟩

/-- The conversion of a raw literal whose keys are texts, under any raw schema. It ends with the
error of the depth exactly if a part lies below more than `literalDepthLimit` containers, and if
everything before that part is right: the schemas of members can be looked up, and the scalars
convert. It gives a literal exactly if no part is too deep and everything is right. Then the literal
has the shape of the raw one, as has the one that the raw literal becomes without any schemas; the
two are the same if no schema governs. In this case everything is right but strings of bytes. The
parts are those that routes lead to, and the containers above a part are as many as the segments of
its path. -/
theorem literal_keeps_shape (hraw : raw.isTextKeyed = true) (cs : Components) (schema : Raw) :
    (cs.literalAt schema 0 raw = .error .literalTooDeep
      ↔ ∃ front v back governing, cs.visits [] (.ok schema) raw = front ++ v :: back
        ∧ LoadError.literalDepthLimit < v.path.length ∧ v.schema = .ok governing
        ∧ ∀ u ∈ front, u.fault? cs = none)
    ∧ ((∃ value, cs.literalAt schema 0 raw = .ok value)
      ↔ ∀ v ∈ cs.visits [] (.ok schema) raw,
        v.path.length ≤ LoadError.literalDepthLimit ∧ v.fault? cs = none)
    ∧ (∀ value, cs.literalAt schema 0 raw = .ok value → value.shape = raw.shape
      ∧ ∃ plain, Literal.ofRaw .null .null raw = .ok plain ∧ plain.shape = value.shape
        ∧ (cs.governing? schema = none → value = plain))
    ∧ (cs.governing? schema = none → ∀ v ∈ cs.visits [] (.ok schema) raw,
      (∀ bytes, v.part ≠ .bytes bytes) → v.fault? cs = none)
    ∧ ∀ path part, (∃ v ∈ cs.visits [] (.ok schema) raw, v.path = path ∧ v.part = part)
      ↔ raw.Route path part := by
  have hright : cs.governing? schema = none → ∀ v ∈ cs.visits [] (.ok schema) raw,
      (∀ bytes, v.part ≠ .bytes bytes) → v.fault? cs = none := by
    intro hnone v hv hbytes
    obtain ⟨s, hs, hsnone⟩ := ungoverned_visits hnone v hv
    exact fault?_of_ungoverned (route_of_mem_visits hraw v hv).2 hbytes hs hsnone
  refine ⟨literalAt_eq_tooDeep_iff hraw, exists_literalAt_iff hraw, ?_, hright,
    fun path part => ⟨?_, ?_⟩⟩
  · intro value hvalue
    refine ⟨shape_of_literalAt raw hraw hvalue, ?_⟩
    obtain ⟨plain, hplain⟩ := exists_literalAt_null hraw ⟨value, hvalue⟩
    have hunhinted := ofRaw_of_literalAt raw (governing?_eq_none rfl) hplain
    refine ⟨plain, hunhinted, ?_, fun hnone => ?_⟩
    · rw [shape_of_literalAt raw hraw hplain, shape_of_literalAt raw hraw hvalue]
    · exact Except.ok.inj ((ofRaw_of_literalAt raw hnone hvalue).symm.trans hunhinted)
  · rintro ⟨v, hv, rfl, rfl⟩
    exact (route_of_mem_visits hraw v hv).1
  · exact fun hroute => exists_visit_of_route hroute [] (.ok schema)

/-- Components none of which is needed. -/
def noComponents : Components := ⟨⟨.openapi, 3, 0, 0⟩, []⟩

/-- Identifiers, and a schema that asks for long integers. -/
def identifiers : Raw := .dict [(.str "ids", .list [.int 1, .int 2])]

def identifierSchema : Raw :=
  .dict [(.str "properties", .dict [(.str "ids",
    .dict [(.str "items", .dict [(.str "format", .str "int64")])])])]

theorem literal_keeps_shape_identifiers : identifiers.isTextKeyed = true
    ∧ ∃ value plain, noComponents.literalAt identifierSchema 0 identifiers = .ok value
      ∧ Literal.ofRaw .null .null identifiers = .ok plain
      ∧ value = .object [("ids", .array [.scalar .long (.int 1), .scalar .long (.int 2)])]
      ∧ plain = .object [("ids", .array [.scalar .integer (.int 1), .scalar .integer (.int 2)])]
      ∧ value.shape = .object [("ids", .array [.scalar, .scalar])]
      ∧ plain.shape = value.shape := by
  have hraw : identifiers.isTextKeyed = true := by decide +kernel
  have hvalue : noComponents.literalAt identifierSchema 0 identifiers
      = .ok (.object [("ids", .array [.scalar .long (.int 1), .scalar .long (.int 2)])]) := rfl
  have hplain : Literal.ofRaw .null .null identifiers
      = .ok (.object [("ids", .array [.scalar .integer (.int 1), .scalar .integer (.int 2)])]) :=
    rfl
  obtain ⟨-, -, hkept, -⟩ := literal_keeps_shape hraw noComponents identifierSchema
  obtain ⟨hshape, plain, hunhinted, hsame, -⟩ := hkept _ hvalue
  refine ⟨hraw, _, plain, hvalue, hunhinted, rfl, ?_, hshape, hsame⟩
  exact Except.ok.inj (hunhinted.symm.trans hplain)

/-- A conversion can end although no part is too deep and all scalars convert: if the schema of a
member is looked up where there is no mapping. -/
theorem conversion_ends_at_properties : ¬∀ (cs : Components) (schema raw : Raw),
    raw.isTextKeyed = true →
    (∀ path part, raw.Route path part → path.length ≤ LoadError.literalDepthLimit) →
    (∀ path part governing, raw.Route path part → part.isPlainScalar = true →
      ∃ value, plainLiteral governing part = .ok value) →
    ∃ value, cs.literalAt schema 0 raw = .ok value ∧ value.shape = raw.shape := by
  have hroutes : ∀ path part, (Raw.dict [(.str "x", .bool true)]).Route path part →
      path = [] ∧ part.isPlainScalar = false ∨ path = ["x"] ∧ part = .bool true := by
    intro path part hroute
    cases hroute with
    | here => exact .inl ⟨rfl, rfl⟩
    | @field _ name value _ segments found hrest =>
      have hmem := Entries.mem_of_field? found
      simp only [List.mem_singleton, Prod.mk.injEq, Raw.str.injEq] at hmem
      obtain ⟨rfl, rfl⟩ := hmem
      cases hrest
      exact .inr ⟨rfl, rfl⟩
  have hended : noComponents.literalAt (.dict [(.str "properties", .int 5)]) 0
      (.dict [(.str "x", .bool true)]) = .error (.notSearchable "int") := rfl
  -- The schema of the member `x` is looked up in the number that stands for the properties.
  intro h
  obtain ⟨value, hvalue, -⟩ := h noComponents (.dict [(.str "properties", .int 5)])
    (.dict [(.str "x", .bool true)]) (by decide +kernel)
    (fun path part hroute => by
      rcases hroutes path part hroute with ⟨rfl, -⟩ | ⟨rfl, -⟩ <;> decide)
    (fun path part governing hroute hscalar => by
      rcases hroutes path part hroute with ⟨-, hpart⟩ | ⟨-, rfl⟩
      · rw [hpart] at hscalar
        cases hscalar
      · exact ⟨.scalar .boolean (.bool true), rfl⟩)
  rw [hended] at hvalue
  cases hvalue

end Components

end ApiLint
