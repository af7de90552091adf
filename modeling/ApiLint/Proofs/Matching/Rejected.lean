import ApiLint.Proofs.Matching.Departures
import ApiLint.Proofs.Raw.Address

/-!
# Where a rejected part of a literal stands

A departure of a raw literal is given by the keys and indices that lead to it. In the raw literal
they lead to a part, in the converted literal to the converted part, and this is what the matcher
rejects.
-/

namespace ApiLint

namespace Components

variable (cs : Components) (g : Graph)

/-- A part of a raw literal whose converted value the matcher rejects as a whole, against the schema
that governs it: what the path leads to, in the raw literal and in the literal that it was converted
to. -/
structure Rejects (raw : Raw) (value : Literal) (path : List String) (part : Raw) : Prop where
  leads : raw.at? path = some part
  converted : ∃ schema child below depth found, cs.Governs g schema child below
    ∧ cs.literalAt schema depth part = .ok found ∧ value.at? path = some found
    ∧ ∀ pointer, Matching.mismatches g child pointer found = .ok [Matching.mismatch pointer]

variable {cs g}

/-! ### Paths -/

lemma exists_of_mem_itemDepartures {schema : Raw} {index : Nat} {items : List Raw}
    {path : List String} (h : path ∈ cs.itemDepartures schema index items) :
    ∃ i x rest, items[i]? = some x ∧ path = writtenNat (index + i) :: rest
      ∧ rest ∈ cs.departures schema x := by
  induction items generalizing index with
  | nil => simp [itemDepartures] at h
  | cons x xs ih =>
    rw [itemDepartures, List.mem_append] at h
    rcases h with h | h
    · obtain ⟨rest, hrest, rfl⟩ := List.mem_map.mp h
      exact ⟨0, x, rest, rfl, rfl, hrest⟩
    · obtain ⟨i, y, rest, hy, rfl, hrest⟩ := ih h
      exact ⟨i + 1, y, rest, hy, by rw [show index + 1 + i = index + (i + 1) by omega], hrest⟩

lemma exists_of_mem_memberDepartures {es members : Entries} {path : List String}
    (h : path ∈ cs.memberDepartures es members) :
    ∃ e ∈ members, ∃ rest, path = e.1.text :: rest
      ∧ rest ∈ cs.departures (es.memberSchema e.1.text) e.2 := by
  induction members with
  | nil => simp [memberDepartures] at h
  | cons e members ih =>
    obtain ⟨key, value⟩ := e
    rw [memberDepartures, List.mem_append] at h
    rcases h with h | h
    · obtain ⟨rest, hrest, rfl⟩ := List.mem_map.mp h
      exact ⟨(key, value), List.mem_cons_self .., rest, rfl, hrest⟩
    · obtain ⟨f, hf, hrest⟩ := ih h
      exact ⟨f, List.mem_cons_of_mem _ hf, hrest⟩

/-! ### Parts of converted literals -/

/-- The converted elements of a list stand where the elements stand. -/
lemma exists_of_literalAt_list {schema : Raw} {es : Entries} {depth : Nat} {items : List Raw}
    {value : Literal} (hes : cs.governing? schema = some es)
    (h : cs.literalAt schema depth (.list items) = .ok value) {i : Nat} {x : Raw}
    (hx : items[i]? = some x) :
    ∃ found, value.part? (writtenNat i) = some found
      ∧ cs.literalAt (es.field "items") (depth + 1) x = .ok found := by
  obtain ⟨values, rfl, hvalues⟩ := literalAt_list_eq_ok hes h
  obtain ⟨found, hfound, hliteral⟩ := getElem?_of_forall₂ hvalues hx
  exact ⟨found, by simp [Literal.part?, hfound], hliteral⟩

/-- The converted members of a mapping stand where the members stand. -/
lemma exists_of_literalAt_dict {schema : Raw} {es members : Entries} {depth : Nat} {value : Literal}
    (hmembers : (Raw.dict members).isTextKeyed = true) (hes : cs.governing? schema = some es)
    (h : cs.literalAt schema depth (.dict members) = .ok value) {e : Raw × Raw} (he : e ∈ members) :
    ∃ found, value.part? e.1.text = some found
      ∧ cs.literalAt (es.memberSchema e.1.text) (depth + 1) e.2 = .ok found := by
  obtain ⟨fields, rfl, hfields⟩ := literalAt_dict_eq_ok hmembers hes h
  obtain ⟨field, hfield, hname, hliteral⟩ := exists_of_forall₂_of_mem_left hfields he
  have hnodup : (Fields.names fields).Nodup := by
    rw [names_of_forall₂ (R := fun _ _ => True) (hfields.imp fun _ _ h => ⟨h.1, trivial⟩)]
    exact Raw.nodup_names hmembers
  refine ⟨field.2, ?_, hliteral⟩
  rw [hname, Literal.part?]
  exact Fields.find?_of_mem hnodup hfield

/-! ### Rejected parts -/

/-- A departure is the whole literal, or stands in an element or in a member. -/
lemma departures_cases {schema raw : Raw} {es : Entries} (hes : cs.governing? schema = some es)
    {path : List String} (h : path ∈ cs.departures schema raw) :
    (path = [] ∧ cs.departures schema raw = [[]])
      ∨ (∃ items i x rest, raw = .list items ∧ items[i]? = some x ∧ path = writtenNat i :: rest
        ∧ rest ∈ cs.departures (es.field "items") x)
      ∨ ∃ members e rest, raw = .dict members ∧ e ∈ members ∧ path = e.1.text :: rest
        ∧ rest ∈ cs.departures (es.memberSchema e.1.text) e.2 := by
  cases raw with
  | list items =>
    rw [departures_list hes] at h ⊢
    split at h
    · cases h
    · next hnull =>
      split at h
      · obtain ⟨i, x, rest, hx, heq, hrest⟩ := exists_of_mem_itemDepartures h
        rw [Nat.zero_add] at heq
        exact .inr (.inl ⟨items, i, x, rest, rfl, hx, heq, hrest⟩)
      · next harray =>
        exact .inl ⟨List.mem_singleton.mp h, by rw [if_neg hnull, if_neg harray]⟩
  | dict members =>
    rw [departures_dict hes] at h ⊢
    split at h
    · cases h
    · next hnull =>
      split at h
      · obtain ⟨e, he, rest, heq, hrest⟩ := exists_of_mem_memberDepartures h
        exact .inr (.inr ⟨members, e, rest, rfl, he, heq, hrest⟩)
      · next hobject =>
        exact .inl ⟨List.mem_singleton.mp h, by rw [if_neg hnull, if_neg hobject]⟩
  | _ =>
    rw [departures_plain (by simp) (by simp) hes] at h ⊢
    split at h
    · cases h
    · next hnull =>
      split at h
      · cases h
      · next hfits =>
        exact .inl ⟨List.mem_singleton.mp h, by rw [if_neg hnull, if_neg hfits]⟩

/-- A whole literal that departs is a part of itself. -/
lemma rejects_self (hcs : cs.RenderedBy g) {schema raw : Raw} {child : Child} {es : Entries}
    {depth : Nat} {value : Literal} (hraw : raw.isTextKeyed = true)
    (hgoverns : cs.Governs g schema child es) (hvalue : cs.literalAt schema depth raw = .ok value)
    (h : cs.departures schema raw = [[]]) : cs.Rejects g raw value [] raw := by
  refine ⟨rfl, schema, child, es, depth, value, hgoverns, hvalue, rfl, fun pointer => ?_⟩
  have hmismatches := matchesAtDepartures hcs hraw pointer hgoverns hvalue
  rw [h] at hmismatches
  exact hmismatches

/-- A rejected part of a part is a rejected part. -/
lemma Rejects.cons {raw x part : Raw} {value found : Literal} {segment : String}
    {path : List String} (h : cs.Rejects g x found path part) (hx : raw.part? segment = some x)
    (hfound : value.part? segment = some found) :
    cs.Rejects g raw value (segment :: path) part := by
  obtain ⟨hleads, schema, child, below, depth, other, hgoverns, hliteral, hother, hrejected⟩ := h
  refine ⟨?_, schema, child, below, depth, other, hgoverns, hliteral, ?_, hrejected⟩
  · rw [Raw.at?_cons, hx]
    exact hleads
  · rw [Literal.at?_cons, hfound]
    exact hother

/-- A departure of a literal leads to a part that the matcher rejects. -/
theorem exists_rejects (hcs : cs.RenderedBy g) {schema raw : Raw} {child : Child} {es : Entries}
    {depth : Nat} {value : Literal} (hraw : raw.isTextKeyed = true)
    (hgoverns : cs.Governs g schema child es) (hvalue : cs.literalAt schema depth raw = .ok value)
    {path : List String} (hpath : path ∈ cs.departures schema raw) :
    ∃ part, cs.Rejects g raw value path part := by
  induction path generalizing schema raw child es depth value with
  | nil =>
    have ⟨_, _, _, _, _, _, hes, _⟩ := hgoverns
    rcases departures_cases hes hpath with
      ⟨_, hwhole⟩ | ⟨_, _, _, _, _, _, h, _⟩ | ⟨_, _, _, _, _, h, _⟩
    · exact ⟨raw, rejects_self hcs hraw hgoverns hvalue hwhole⟩
    · cases h
    · cases h
  | cons segment path ih =>
    obtain ⟨_, _, _, _, _, _, hes, hrenders⟩ := hgoverns
    rcases departures_cases hes hpath with
      ⟨h, _⟩ | ⟨items, i, x, rest, rfl, hx, h, hrest⟩ | ⟨members, e, rest, rfl, he, h, hrest⟩
    · cases h
    · obtain ⟨rfl, rfl⟩ := List.cons.inj h
      obtain ⟨found, hfound, hliteral⟩ := exists_of_literalAt_list hes hvalue hx
      have hkeyed := Raw.isTextKeyed_of_mem_list hraw (List.mem_of_getElem? hx)
      -- Elements that no schema governs have no departures.
      rcases items_of_renders hcs hrenders with ⟨_, hnone⟩ | ⟨_, _, _, hbelow⟩
      · rw [departures_eq_nil hnone] at hrest
        cases hrest
      · obtain ⟨part, hpart⟩ := ih hkeyed hbelow hliteral hrest
        exact ⟨part, hpart.cons (by simp [Raw.part?, hx]) hfound⟩
    · obtain ⟨rfl, rfl⟩ := List.cons.inj h
      obtain ⟨found, hfound, hliteral⟩ := exists_of_literalAt_dict hraw hes hvalue he
      have hkeyed := (Raw.isTextKeyed_of_mem_dict hraw he).2
      rcases memberSchema?_of_renders hcs hrenders e.1.text with ⟨_, hnone⟩ | ⟨_, _, _, hbelow⟩
      · rw [departures_eq_nil hnone] at hrest
        cases hrest
      · obtain ⟨part, hpart⟩ := ih hkeyed hbelow hliteral hrest
        exact ⟨part, hpart.cons (Raw.field?_text_of_mem hraw he) hfound⟩

end Components

end ApiLint
