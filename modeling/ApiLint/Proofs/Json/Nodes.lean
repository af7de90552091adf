import ApiLint.Proofs.Json.Numbers
import ApiLint.Proofs.Json.Tokens
import ApiLint.Proofs.Yaml.Descents
import ApiLint.Proofs.Yaml.Values

/-!
# The nodes of JSON texts

From the tokens of a value the descent reads a node that denotes the raw value, if the names in
every object are distinct.
-/

namespace ApiLint.Json

open Yaml Yaml.Descend

lemma isScalar_numeral (n : Numeral) : n.raw.isScalar = true := by
  rw [Numeral.raw]
  split <;> rfl

/-- The tokens of a value begin a node. -/
lemma Value.exists_start (v : Value) :
    ∃ token tokens, v.tokens = token :: tokens ∧ StartsNode token := by
  cases v with
  | array items close => exact ⟨_, _, rfl, .inl rfl⟩
  | object members close => exact ⟨_, _, rfl, .inr (.inl rfl)⟩
  | _ => exact ⟨_, _, rfl, .inr (.inr ⟨_, _, rfl⟩)⟩

lemma isEntry_of_map_eq {first : Bool} {commas : List PlacedToken}
    (h : commas.map PlacedToken.token = entryTokens first) : IsEntry first commas := by
  cases first with
  | true => exact List.map_eq_nil_iff.mp h
  | false =>
    obtain ⟨t, rfl, ht⟩ := List.map_eq_singleton_iff.mp h
    exact ⟨t, rfl, ht⟩

/-- The tokens of a collection stand between its brackets, and a descent that has four steps for
each token has a step for the collection besides. -/
lemma exists_brackets {d : Descent} {ts rest : List PlacedToken} {start stop : Token}
    {inner : List Token} (hd : d.tokens = ts ++ rest)
    (hts : ts.map PlacedToken.token = start :: (inner ++ [stop])) {n : Nat}
    (hn : 4 * ts.length ≤ n) :
    ∃ t us u m, d.tokens = t :: (us ++ u :: rest) ∧ t.token = start
      ∧ us.map PlacedToken.token = inner ∧ u.token = stop ∧ n = m + 1 ∧ 4 * us.length + 1 ≤ m := by
  obtain ⟨t, ts, rfl, ht, hts⟩ := List.map_eq_cons_iff.mp hts
  obtain ⟨us, ts, rfl, hus, hts⟩ := List.map_eq_append_iff.mp hts
  obtain ⟨u, rfl, hu⟩ := List.map_eq_singleton_iff.mp hts
  simp only [List.length_cons, List.length_append] at hn
  obtain ⟨m, rfl⟩ := Nat.exists_eq_add_one_of_ne_zero (by omega : n ≠ 0)
  exact ⟨t, us, u, m, by simpa using hd, ht, hus, hu, rfl, by omega⟩

/-- Tokens that begin with those of a value. -/
lemma Value.exists_split (v : Value) {ts : List PlacedToken} {more : List Token}
    (h : ts.map PlacedToken.token = v.tokens ++ more) :
    ∃ t vs ws, ts = t :: vs ++ ws ∧ StartsNode t.token
      ∧ (t :: vs).map PlacedToken.token = v.tokens ∧ ws.map PlacedToken.token = more := by
  obtain ⟨vs, ws, rfl, hvs, hws⟩ := List.map_eq_append_iff.mp h
  obtain ⟨token, tokens, hstart, hstarts⟩ := v.exists_start
  obtain ⟨t, vs, rfl, rfl, -⟩ := List.map_eq_cons_iff.mp (hvs.trans hstart)
  exact ⟨t, vs, ws, rfl, hstarts, hvs, hws⟩

/-- A scalar is read from its only token. -/
lemma run_scalar_value {d : Descent} {ts rest : List PlacedToken} {text : String} {plain : Bool}
    {raw : Raw} (hd : d.tokens = ts ++ rest)
    (hts : ts.map PlacedToken.token = [.scalar text plain])
    (hvalue : ScalarValue.ofText (if plain then Tag.ofPlain text else .str) text = .ok raw)
    (hraw : raw.isScalar = true) {n : Nat} (hn : 4 * ts.length ≤ n) (setting : Setting) :
    ∃ root, (node setting n).run d = .ok (root, { d with tokens := rest }) ∧ root.Denotes raw := by
  obtain ⟨t, rfl, ht⟩ := List.map_eq_singleton_iff.mp hts
  cases n with
  | zero => cases hn
  | succ n => exact ⟨_, run_scalar hd ht setting, Node.denotes_scalar hvalue hraw _⟩

namespace Value

mutual

/-- A node that denotes a shared value is read from its tokens. -/
theorem run_value {v : Value} (hv : v.isShared = true) (hkeyed : v.raw.isTextKeyed = true)
    {d : Descent} {ts rest : List PlacedToken} (hd : d.tokens = ts ++ rest)
    (hts : ts.map PlacedToken.token = v.tokens) {n : Nat} (hn : 4 * ts.length ≤ n)
    (setting : Setting) :
    ∃ root, (node setting n).run d = .ok (root, { d with tokens := rest })
      ∧ root.Denotes v.raw := by
  -- From a collection to a value in it the descent takes three steps at most, and so four steps for
  -- each token are always enough.
  match v with
  | .null =>
    have htag : Tag.ofPlain "null" = .null := by decide +kernel
    exact run_scalar_value hd hts (congrArg (ScalarValue.ofText · "null") htag) rfl hn setting
  | .bool true =>
    have htag : Tag.ofPlain "true" = .bool := by decide +kernel
    exact run_scalar_value hd hts (congrArg (ScalarValue.ofText · "true") htag) rfl hn setting
  | .bool false =>
    have htag : Tag.ofPlain "false" = .bool := by decide +kernel
    exact run_scalar_value hd hts (congrArg (ScalarValue.ofText · "false") htag) rfl hn setting
  | .number m => exact run_scalar_value hd hts (ofText_numeral hv) (isScalar_numeral m) hn setting
  | .string ps => exact run_scalar_value hd hts rfl rfl hn setting
  | .array items close =>
    rw [isShared, Bool.and_eq_true] at hv
    rw [tokens] at hts
    obtain ⟨t, us, u, m, hd, ht, hus, hu, rfl, hm⟩ := exists_brackets hd hts hn
    obtain ⟨ns, hrun, hns⟩ := run_items hv.1 hkeyed true
      (d := { d with tokens := us ++ u :: rest }) rfl hus hu hm
    exact ⟨_, run_sequence hd ht hrun setting, Node.denotes_sequence hns _⟩
  | .object members close =>
    rw [isShared, Bool.and_eq_true] at hv
    rw [tokens] at hts
    obtain ⟨t, us, u, m, hd, ht, hus, hu, rfl, hm⟩ := exists_brackets hd hts hn
    obtain ⟨es, hrun, hes⟩ := run_members hv.1 hkeyed true
      (d := { d with tokens := us ++ u :: rest }) rfl hus hu hm
    exact ⟨_, run_mapping hd ht hrun setting, Node.denotes_mapping hes hkeyed _⟩

theorem run_items {items : List (Spaced Value)} (hitems : itemsShared items = true)
    (hkeyed : (Raw.list (itemRaws items)).isTextKeyed = true) (first : Bool) {d : Descent}
    {ts rest : List PlacedToken} {u : PlacedToken} (hd : d.tokens = ts ++ u :: rest)
    (hts : ts.map PlacedToken.token = itemTokens first items) (hu : u.token = .flowSequenceEnd)
    {n : Nat} (hn : 4 * ts.length + 1 ≤ n) :
    ∃ ns, (flowItems n first).run d = .ok (ns, { d with tokens := rest })
      ∧ List.Forall₂ Node.Denotes ns (itemRaws items) := by
  cases n with
  | zero => omega
  | succ n =>
    match items with
    | [] =>
      cases List.map_eq_nil_iff.mp hts
      exact ⟨[], run_items_end hd hu first, .nil⟩
    | ⟨before, value, after⟩ :: items =>
      simp only [itemsShared, Bool.and_eq_true] at hitems
      obtain ⟨⟨⟨-, hvalue⟩, -⟩, hothers⟩ := hitems
      rw [itemRaws, Raw.isTextKeyed, Raw.allTextKeyed, Bool.and_eq_true] at hkeyed
      rw [itemTokens] at hts
      obtain ⟨commas, ts, rfl, hcommas, hts⟩ := List.map_eq_append_iff.mp hts
      obtain ⟨t, vs, ws, rfl, hstarts, hvs, hws⟩ := value.exists_split hts
      simp only [List.length_append, List.length_cons] at hn
      obtain ⟨root, hroot, hdenotes⟩ := run_value hvalue hkeyed.1
        (d := { d with tokens := t :: vs ++ (ws ++ u :: rest) }) (n := n) rfl hvs
        (by rw [List.length_cons]; omega) .flow
      obtain ⟨ns, hrun, hns⟩ := run_items hothers hkeyed.2 false
        (d := { d with tokens := ws ++ u :: rest }) (n := n) rfl hws hu (by omega)
      simp only [List.append_assoc, List.cons_append] at hd hroot
      exact ⟨_, run_item hd (isEntry_of_map_eq hcommas) hstarts hroot hrun, .cons hdenotes hns⟩

theorem run_members {members : List (Member Value)} (hmembers : membersShared members = true)
    (hkeyed : (Raw.dict (memberEntries members)).isTextKeyed = true) (first : Bool) {d : Descent}
    {ts rest : List PlacedToken} {u : PlacedToken} (hd : d.tokens = ts ++ u :: rest)
    (hts : ts.map PlacedToken.token = memberTokens first members) (hu : u.token = .flowMappingEnd)
    {n : Nat} (hn : 4 * ts.length + 1 ≤ n) :
    ∃ es, (flowEntries n first).run d = .ok (es, { d with tokens := rest })
      ∧ List.Forall₂ Node.EntryDenotes es (memberEntries members) := by
  match members with
  | [] =>
    cases List.map_eq_nil_iff.mp hts
    obtain ⟨n, rfl⟩ : ∃ m, n = m + 1 := ⟨n - 1, by omega⟩
    exact ⟨[], run_entries_end hd hu first, .nil⟩
  | ⟨name, before, value, after⟩ :: members =>
    simp only [membersShared, Bool.and_eq_true] at hmembers
    obtain ⟨⟨⟨-, hvalue⟩, -⟩, hothers⟩ := hmembers
    obtain ⟨-, hkeyedValue, hkeyedOthers⟩ := Raw.isTextKeyed_dict_cons hkeyed
    rw [memberTokens] at hts
    obtain ⟨commas, ts, rfl, hcommas, hts⟩ := List.map_eq_append_iff.mp hts
    obtain ⟨k, ts, rfl, hk, hts⟩ := List.map_eq_cons_iff.mp hts
    obtain ⟨s, ts, rfl, hs, hts⟩ := List.map_eq_cons_iff.mp hts
    obtain ⟨v, ts, rfl, hv, hts⟩ := List.map_eq_cons_iff.mp hts
    obtain ⟨t, vs, ws, rfl, hstarts, hvs, hws⟩ := value.exists_split hts
    simp only [List.length_append, List.length_cons] at hn
    obtain ⟨n, rfl⟩ : ∃ m, n = m + 3 := ⟨n - 3, by omega⟩
    obtain ⟨root, hroot, hdenotes⟩ := run_value hvalue hkeyedValue
      (d := { d with tokens := t :: vs ++ (ws ++ u :: rest) }) (n := n) rfl hvs
      (by rw [List.length_cons]; omega) .flow
    obtain ⟨es, hrun, hes⟩ := run_members hothers hkeyedOthers false
      (d := { d with tokens := ws ++ u :: rest }) (n := n + 2) rfl hws hu (by omega)
    simp only [List.append_assoc, List.cons_append] at hd hroot
    exact ⟨_, run_entry hd (isEntry_of_map_eq hcommas) hk hs hv hstarts hroot hrun,
      .cons ⟨_, _, rfl, rfl, hdenotes⟩ hes⟩

end

end Value

end ApiLint.Json
