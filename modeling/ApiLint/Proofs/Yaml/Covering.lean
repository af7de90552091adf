import ApiLint.Proofs.Location
import ApiLint.Proofs.Yaml.Making

/-!
# The places of a value

The source map is made of the nodes of a text, and the value is made of them apart from it. They
meet in the routes of the value: at the end of each is a part of the value, and the source map has
the position of the node that this part is made of. Where a key stands twice in a mapping, that is
the last node under it. If the keys of all mappings are distinct, then the places in the source map
are those of the value and no others, in the order in which they are read.
-/

namespace ApiLint

namespace Raw

mutual

/-- The positions in a value, each given by the texts of keys and the indices that lead to it: first
the value itself, then the positions in its parts, one part after the other. -/
def positions : Raw → List (List String)
  | .list items => [] :: itemPositions 0 items
  | .dict es => [] :: entryPositions es
  | _ => [[]]

/-- The positions in the elements of a list, the first of which has the given index. -/
def itemPositions (index : Nat) : List Raw → List (List String)
  | [] => []
  | x :: xs => (positions x).map (writtenNat index :: ·) ++ itemPositions (index + 1) xs

/-- The positions in the entries of a mapping. -/
def entryPositions : List (Raw × Raw) → List (List String)
  | [] => []
  | (key, value) :: es => (positions value).map (key.text :: ·) ++ entryPositions es

end

lemma isTextKeyed_list {items : List Raw} (h : ∀ x ∈ items, x.isTextKeyed = true) :
    (list items).isTextKeyed = true := by
  rw [isTextKeyed]
  induction items with
  | nil => rfl
  | cons x xs ih =>
    rw [List.forall_mem_cons] at h
    rw [allTextKeyed, h.1, ih h.2]
    rfl

lemma isTextKeyed_dict {es : Entries} (htexts : ∀ e ∈ es, ∃ name, e.1 = .str name)
    (hnames : (es.map fun e => e.1.text).Nodup) (h : ∀ e ∈ es, e.2.isTextKeyed = true) :
    (dict es).isTextKeyed = true := by
  rw [isTextKeyed]
  induction es with
  | nil => rfl
  | cons e es ih =>
    obtain ⟨key, value⟩ := e
    obtain ⟨⟨name, rfl⟩, hothers⟩ := List.forall_mem_cons.mp htexts
    obtain ⟨hvalue, hvalues⟩ := List.forall_mem_cons.mp h
    rw [List.map_cons, List.nodup_cons] at hnames
    have hnone : Entries.field? es name = none := by
      cases hfield : Entries.field? es name with
      | none => rfl
      | some v =>
        exact absurd (List.mem_map_of_mem (Entries.mem_of_field? hfield)) hnames.1
    rw [entriesTextKeyed, show value.isTextKeyed = true from hvalue, hnone,
      ih hothers hnames.2 hvalues]
    rfl

end Raw

/-! ### Entries put in one after the other -/

namespace Entries

lemma field?_insert (es : Entries) (name : String) (value : Raw) (other : String) :
    (es.insert (.str name) value).field? other
      = if name = other then some value else es.field? other := by
  induction es with
  | nil => by_cases h : name = other <;> simp [insert, field?, find?, h]
  | cons e es ih =>
    obtain ⟨key, v⟩ := e
    by_cases hkey : key = .str name
    · subst hkey
      have hsame : (Raw.str name).sameKey (.str name) = true := by simp
      rw [insert, hsame, if_pos rfl]
      by_cases h : name = other
      · subst h
        simp
      · rw [if_neg h, field?_cons_of_ne (by simpa using h), field?_cons_of_ne (by simpa using h)]
    · have hdifferent : key.sameKey (.str name) = false := by
        rw [← Bool.not_eq_true, Raw.sameKey_str_iff]
        exact hkey
      rw [insert, hdifferent, if_neg Bool.false_ne_true]
      by_cases hother : key = .str other
      · subst hother
        have hne : name ≠ other := fun h => hkey (h ▸ rfl)
        rw [field?_cons_self, if_neg hne, field?_cons_self]
      · rw [field?_cons_of_ne hother, ih, field?_cons_of_ne hother]

/-- What is found under a name in a mapping of entries with texts as keys is the value of the last
entry of the name. -/
lemma exists_last_of_field? {es : List (Raw × Raw)} (htexts : ∀ e ∈ es, ∃ name, e.1 = .str name)
    {name : String} {value : Raw} (h : (ofList es).field? name = some value) :
    ∃ front back, es = front ++ (.str name, value) :: back ∧ ∀ e ∈ back, e.1 ≠ .str name := by
  induction es using List.reverseRecOn with
  | nil => cases h
  | append_singleton es e ih =>
    obtain ⟨key, v⟩ := e
    obtain ⟨other, rfl⟩ := htexts _ (List.mem_append_right _ (List.mem_singleton_self _))
    rw [ofList, List.foldl_append] at h
    change Entries.field? ((ofList es).insert (.str other) v) name = _ at h
    rw [field?_insert] at h
    split at h
    · next heq =>
      cases h
      exact ⟨es, [], by rw [heq], nofun⟩
    · next hne =>
      obtain ⟨front, back, rfl, hback⟩ := ih (fun e he => htexts e (List.mem_append_left _ he)) h
      refine ⟨front, back ++ [(.str other, v)], by simp, ?_⟩
      simp only [List.forall_mem_append, List.forall_mem_singleton]
      exact ⟨hback, fun heq => hne (Raw.str.inj heq)⟩

end Entries

namespace Fields

variable {α : Type}

/-- Fields of other names change nothing for a name. -/
lemma find?_merge_of_notMem {fs gs : Fields α} {name : String} (h : name ∉ gs.names) :
    (merge fs gs).find? name = fs.find? name := by
  induction gs generalizing fs with
  | nil => rfl
  | cons g gs ih =>
    simp only [names, List.map_cons, List.mem_cons, not_or] at h
    rw [merge, List.foldl_cons]
    change (merge (insert fs g.1 g.2) gs).find? name = _
    rw [ih h.2, find?_insert, if_neg (Ne.symm h.1)]

end Fields

namespace Yaml.Node

variable {n m : Node} {raw : Raw} {segments : List String}

/-! ### Routes to what counts -/

/-- A route that goes on, of all entries with one key, behind the last. -/
inductive FinalRoute : Node → List String → Node → Prop
  | here (n : Node) : FinalRoute n [] n
  | field {tag : Tag} {front back : List (Node × Node)} {start : Mark} {key value target : Node}
      {segments : List String} (last : ∀ e ∈ back, e.1.segment ≠ key.segment)
      (rest : FinalRoute value segments target) :
      FinalRoute (.mapping tag (front ++ (key, value) :: back) start) (key.segment :: segments)
        target
  | item {tag : Tag} {items : List Node} {start : Mark} {index : Nat} {n target : Node}
      {segments : List String} (found : items[index]? = some n)
      (rest : FinalRoute n segments target) :
      FinalRoute (.sequence tag items start) (writtenNat index :: segments) target

/-- No route leads into a pair. -/
lemma eq_of_route_pairOf {made : Made} {part target : Raw} (hpair : made.pairOf.1 = part)
    (hroute : part.Route segments target) : segments = [] ∧ part = target := by
  have hcases : part = .null ∨ ∃ k v, part = .pair k v := by
    rw [← hpair, Made.pairOf]
    split
    · exact .inr ⟨_, _, rfl⟩
    · exact .inl rfl
  cases hroute with
  | here => exact ⟨rfl, rfl⟩
  | field | item => rcases hcases with heq | ⟨_, _, heq⟩ <;> cases heq

/-- Only a mapping is made into a mapping. -/
lemma exists_entries_of_toRaw {es : List (Raw × Raw)} (hkeys : n.everywhere keysAreTexts = true)
    (h : n.toRaw = .ok (.dict es)) :
    ∃ tag entries start, n = .mapping tag entries start
      ∧ es = Entries.ofList (entries.map entryValue)
      ∧ ∀ e ∈ entries, e.2.everywhere keysAreTexts = true ∧ e.2.toRaw = .ok e.2.value := by
  cases n with
  | scalar tag text start =>
    rw [toRaw_scalar] at h
    cases ScalarValue.isScalar_ofText h
  | sequence tag items start => rcases toRaw_sequence h with ⟨-, heq, -⟩ | ⟨heq, -⟩ <;> cases heq
  | mapping tag entries start =>
    rw [everywhere_mapping] at hkeys
    rcases toRaw_mapping hkeys.1 h with ⟨-, _, heq⟩ | ⟨heq, hvalues⟩ <;> cases heq
    exact ⟨tag, entries, start, rfl, rfl, fun e he => ⟨hkeys.2 e he, hvalues e he⟩⟩

/-- Only a sequence is made into a list, of what its items are made into or of pairs. -/
lemma exists_items_of_toRaw {raws : List Raw} (hkeys : n.everywhere keysAreTexts = true)
    (h : n.toRaw = .ok (.list raws)) :
    ∃ tag items start, n = .sequence tag items start
      ∧ ((raws = items.map (fun n => n.made.pairOf.1) ∧ ∀ n ∈ items, n.Produces n.made.pairOf.1)
        ∨ (raws = items.map value
          ∧ ∀ n ∈ items, n.everywhere keysAreTexts = true ∧ n.toRaw = .ok n.value)) := by
  cases n with
  | scalar tag text start =>
    rw [toRaw_scalar] at h
    cases ScalarValue.isScalar_ofText h
  | sequence tag items start =>
    rw [everywhere_sequence] at hkeys
    refine ⟨tag, items, start, rfl, ?_⟩
    rcases toRaw_sequence h with ⟨-, heq, hpairs⟩ | ⟨heq, hvalues⟩
    · exact .inl ⟨Raw.list.inj heq, hpairs⟩
    · exact .inr ⟨Raw.list.inj heq, fun n hn => ⟨hkeys.2 n hn, hvalues n hn⟩⟩
  | mapping tag entries start =>
    rw [everywhere_mapping] at hkeys
    rcases toRaw_mapping hkeys.1 h with ⟨-, _, heq⟩ | ⟨heq, -⟩ <;> cases heq

/-- Where a route leads from the value of a node whose keys are texts, a route that counts leads
from the node to what the part there is made of. -/
lemma exists_finalRoute (hkeys : n.everywhere keysAreTexts = true) (h : n.toRaw = .ok raw)
    {target : Raw} (hroute : raw.Route segments target) :
    ∃ m, n.FinalRoute segments m ∧ m.Produces target := by
  induction hroute generalizing n with
  | here raw => exact ⟨n, .here n, .whole h⟩
  | @field es name value target segments found _ ih =>
    obtain ⟨tag, entries, start, rfl, rfl, hentries⟩ := exists_entries_of_toRaw hkeys h
    -- Under a name stands what the last of its entries is made into; the entries of the node are
    -- split there as those of the value are.
    obtain ⟨front, back, hsplit, hback⟩ := Entries.exists_last_of_field? exists_text_of_mem found
    obtain ⟨front, rest, rfl, rfl, hrest⟩ := List.map_eq_append_iff.mp hsplit
    obtain ⟨⟨key, node⟩, back, rfl, hentry, rfl⟩ := List.map_eq_cons_iff.mp hrest
    cases hentry
    obtain ⟨htexts, hvalue⟩ := hentries (key, node) (by simp)
    obtain ⟨m, hm, hmade⟩ := ih htexts hvalue
    refine ⟨m, .field (fun e he heq => ?_) hm, hmade⟩
    exact hback _ (List.mem_map_of_mem he) (congrArg Raw.str heq)
  | @item raws index x target segments found hrest ih =>
    obtain ⟨tag, items, start, rfl, ⟨rfl, hpairs⟩ | ⟨rfl, hvalues⟩⟩ := exists_items_of_toRaw hkeys h
    · rw [List.getElem?_map] at found
      obtain ⟨node, hnode, hpair⟩ := Option.map_eq_some_iff.mp found
      obtain ⟨rfl, rfl⟩ := eq_of_route_pairOf hpair hrest
      refine ⟨node, .item hnode (.here node), ?_⟩
      rw [← hpair]
      exact hpairs node (List.mem_of_getElem? hnode)
    · rw [List.getElem?_map] at found
      obtain ⟨node, hnode, rfl⟩ := Option.map_eq_some_iff.mp found
      obtain ⟨htexts, hvalue⟩ := hvalues node (List.mem_of_getElem? hnode)
      obtain ⟨m, hm, hmade⟩ := ih htexts hvalue
      exact ⟨m, .item hnode hm, hmade⟩

/-! ### What counts in the source map -/

lemma names_placed_eq (place : String) (spots : List (List String × Mark)) :
    Fields.names (placed place spots) = spots.map fun s => s.1.foldl Pointer.push place := by
  simp [Fields.names, placed]

lemma foldl_push_injective (place : String) :
    Function.Injective fun segments : List String => segments.foldl Pointer.push place := by
  intro xs ys h
  have hchars := congrArg String.toList h
  simp only [Pointer.toList_foldl_push, List.append_cancel_left_eq] at hchars
  rw [← Pointer.toList_placeOf, ← Pointer.toList_placeOf, String.toList_inj] at hchars
  exact Pointer.placeOf_injective hchars

/-- Spots of other segments change nothing for the place at the end of segments. -/
lemma find?_merge_placed {place : String} {before : SourceMap} {spots : List (List String × Mark)}
    (h : ∀ s ∈ spots, s.1 ≠ segments) :
    Fields.find? (Fields.merge before (placed place spots)) (segments.foldl Pointer.push place)
      = Fields.find? before (segments.foldl Pointer.push place) := by
  refine Fields.find?_merge_of_notMem fun hmem => ?_
  rw [names_placed_eq] at hmem
  obtain ⟨s, hs, heq⟩ := List.mem_map.mp hmem
  exact h s hs (foldl_push_injective place heq)

lemma entrySpots_append (xs ys : List (Node × Node)) :
    entrySpots (xs ++ ys) = entrySpots xs ++ entrySpots ys := by
  induction xs with
  | nil => rfl
  | cons e xs ih =>
    obtain ⟨key, value⟩ := e
    simp [entrySpots, ih]

lemma itemSpots_append (index : Nat) (xs ys : List Node) :
    itemSpots index (xs ++ ys) = itemSpots index xs ++ itemSpots (index + xs.length) ys := by
  induction xs generalizing index with
  | nil => rfl
  | cons n xs ih => simp [itemSpots, ih, Nat.add_assoc, Nat.add_comm 1]

/-- The first spot of a node is its own, and no other has its place. -/
lemma spots_eq_cons (n : Node) :
    ∃ others, n.spots = ([], n.start) :: others ∧ ∀ s ∈ others, s.1 ≠ [] := by
  cases n with
  | scalar tag text start => exact ⟨[], rfl, nofun⟩
  | sequence tag items start =>
    refine ⟨itemSpots 0 items, by rw [spots]; rfl, fun s hs => ?_⟩
    obtain ⟨i, n, rest, -, heq, -⟩ := mem_itemSpots.mp hs
    simp [heq]
  | mapping tag entries start =>
    refine ⟨entrySpots entries, by rw [spots]; rfl, fun s hs => ?_⟩
    obtain ⟨e, -, rest, heq, -⟩ := mem_entrySpots.mp hs
    simp [heq]

/-- A place is known with the position of the node that a route which counts leads to, whatever was
known before. -/
lemma find?_merge_of_finalRoute (h : n.FinalRoute segments m) (place : String)
    (before : SourceMap) :
    Fields.find? (Fields.merge before (placed place n.spots)) (segments.foldl Pointer.push place)
      = some (position m.start) := by
  -- What stands in front of the route is taken into what was known before, and what stands behind
  -- it has other places.
  induction h generalizing place before with
  | here n =>
    obtain ⟨others, heq, hothers⟩ := n.spots_eq_cons
    have hsplit : placed place n.spots = [(place, position n.start)] ++ placed place others := by
      rw [heq]
      rfl
    rw [hsplit, merge_append, find?_merge_placed hothers]
    simp [Fields.merge, Fields.find?_insert]
  | @field tag front back start key value target segments last _ ih =>
    have hback : ∀ s ∈ entrySpots back, s.1 ≠ key.segment :: segments := by
      intro s hs heq
      obtain ⟨e, he, rest, hsegments, -⟩ := mem_entrySpots.mp hs
      exact last e he (List.cons.inj (hsegments.symm.trans heq)).1
    have hsplit : (mapping tag (front ++ (key, value) :: back) start).spots
        = (([], start) :: entrySpots front)
          ++ (value.spots.map (fun s => (key.segment :: s.1, s.2)) ++ entrySpots back) := by
      rw [spots, entrySpots_append, entrySpots, List.cons_append]
    rw [hsplit, placed_append, placed_append, merge_append, merge_append, find?_merge_placed hback,
      placed_below]
    exact ih _ _
  | @item tag items start index n target segments found _ ih =>
    obtain ⟨hlt, rfl⟩ := List.getElem?_eq_some_iff.mp found
    have hback : ∀ s ∈ itemSpots (index + 1) (items.drop (index + 1)),
        s.1 ≠ writtenNat index :: segments := by
      intro s hs heq
      obtain ⟨i, _, rest, -, hsegments, -⟩ := mem_itemSpots.mp hs
      have hindex := congrArg indexOf? (List.cons.inj (hsegments.symm.trans heq)).1
      simp only [indexOf?_writtenNat, Option.some.injEq] at hindex
      omega
    have hitems : itemSpots 0 items = itemSpots 0 (items.take index)
        ++ (items[index].spots.map (fun s => (writtenNat index :: s.1, s.2))
          ++ itemSpots (index + 1) (items.drop (index + 1))) := by
      conv_lhs => rw [← List.take_append_drop index items, List.drop_eq_getElem_cons hlt]
      rw [itemSpots_append, itemSpots, List.length_take_of_le hlt.le, Nat.zero_add]
    rw [spots, hitems, ← List.cons_append, placed_append, placed_append, merge_append, merge_append,
      find?_merge_placed hback, placed_below]
    exact ih _ _

lemma find?_sourceMap_of_finalRoute (h : n.FinalRoute segments m) :
    Fields.find? n.sourceMap (Pointer.placeOf segments) = some (position m.start) := by
  rw [sourceMap, addPlaces_eq]
  exact find?_merge_of_finalRoute h "" []

/-! ### Distinct keys -/

lemma nodup_of_keysAreDistinct {tag : Tag} {entries : List (Node × Node)} {start : Mark}
    (h : (mapping tag entries start).keysAreDistinct = true) :
    (entries.map fun e => e.1.segment).Nodup := of_decide_eq_true h

/-- Entries with distinct keys are the entries of the mapping they are made into. -/
lemma ofList_entryValue {entries : List (Node × Node)}
    (h : (entries.map fun e => e.1.segment).Nodup) :
    Entries.ofList (entries.map entryValue) = entries.map entryValue := by
  refine Entries.foldl_insert [] (List.pairwise_map.mpr ?_)
  refine (List.pairwise_map.mp h).imp fun hne => ?_
  simpa [entryValue] using hne

/-- A node with distinct texts as keys has the structure of the value that it is made into, and so
has the value distinct texts as keys. -/
lemma agrees_of_toRaw : ∀ {n : Node} {raw : Raw}, n.everywhere isOrdinary = true →
    n.everywhere keysAreTexts = true → n.everywhere keysAreDistinct = true → n.toRaw = .ok raw →
    n.agrees raw = true ∧ raw.isTextKeyed = true
  | .scalar tag text start, raw, _, _, _, h => by
    rw [toRaw_scalar] at h
    have hscalar := ScalarValue.isScalar_ofText h
    refine ⟨by rw [agrees, hscalar], ?_⟩
    cases raw <;> first | rfl | cases hscalar
  | .sequence tag items start, raw, hordinary, hkeys, hdistinct, h => by
    rw [everywhere_sequence] at hordinary hkeys hdistinct
    obtain ⟨rfl, hvalues⟩ : raw = .list (items.map value)
        ∧ ∀ n ∈ items, n.toRaw = .ok n.value :=
      (toRaw_sequence h).resolve_left fun hnot => Bool.false_ne_true (hnot.1.symm.trans hordinary.1)
    have hitems : ∀ n ∈ items, n.agrees n.value = true ∧ n.value.isTextKeyed = true := by
      intro n hn
      have := List.sizeOf_lt_of_mem hn
      exact agrees_of_toRaw (hordinary.2 n hn) (hkeys.2 n hn) (hdistinct.2 n hn) (hvalues n hn)
    refine ⟨allAgree_iff.mpr ?_, Raw.isTextKeyed_list ?_⟩
    · rw [List.forall₂_map_right_iff, List.forall₂_same]
      exact fun n hn => (hitems n hn).1
    · rw [List.forall_mem_map]
      exact fun n hn => (hitems n hn).2
  | .mapping tag entries start, raw, hordinary, hkeys, hdistinct, h => by
    rw [everywhere_mapping] at hordinary hkeys hdistinct
    obtain ⟨rfl, hvalues⟩ : raw = .dict (Entries.ofList (entries.map entryValue))
        ∧ ∀ e ∈ entries, e.2.toRaw = .ok e.2.value :=
      (toRaw_mapping hkeys.1 h).resolve_left fun hnot =>
        Bool.false_ne_true (hnot.1.symm.trans hordinary.1)
    -- distinct keys: no entry replaces an earlier one
    have hnodup := nodup_of_keysAreDistinct hdistinct.1
    rw [ofList_entryValue hnodup]
    have hentries : ∀ e ∈ entries, e.2.agrees e.2.value = true ∧ e.2.value.isTextKeyed = true := by
      rintro ⟨key, value⟩ he
      have := List.sizeOf_lt_of_mem he
      exact agrees_of_toRaw (hordinary.2 _ he) (hkeys.2 _ he) (hdistinct.2 _ he) (hvalues _ he)
    refine ⟨entriesAgree_iff.mpr ?_, Raw.isTextKeyed_dict exists_text_of_mem ?_ ?_⟩
    · rw [List.forall₂_map_right_iff, List.forall₂_same]
      intro e he
      obtain ⟨text, start, hkey⟩ := exists_of_isText (List.all_eq_true.mp hkeys.1 e he)
      exact ⟨_, text, start, hkey, by rw [entryValue, hkey]; rfl, (hentries e he).1⟩
    · simpa [entryValue, Function.comp_def] using hnodup
    · rw [List.forall_mem_map]
      exact fun e he => (hentries e he).2
termination_by n => sizeOf n
decreasing_by
  all_goals simp_all; omega

mutual

/-- The segments of the spots of a node are the positions of a value with its structure. -/
lemma map_fst_spots : ∀ {n : Node} {raw : Raw}, n.agrees raw = true →
    n.spots.map Prod.fst = raw.positions
  | .scalar tag text start, raw, h => by
    cases raw <;> first | rfl | cases h
  | .sequence tag items start, raw, h => by
    obtain ⟨raws, rfl, hitems⟩ := exists_list_of_agrees h
    rw [spots, Raw.positions, List.map_cons, map_fst_itemSpots (allAgree_iff.mpr hitems)]
  | .mapping tag entries start, raw, h => by
    obtain ⟨es, rfl, hentries⟩ := exists_dict_of_agrees h
    rw [spots, Raw.positions, List.map_cons, map_fst_entrySpots (entriesAgree_iff.mpr hentries)]

lemma map_fst_itemSpots : ∀ {ns : List Node} {raws : List Raw} {index : Nat},
    allAgree ns raws = true →
    (itemSpots index ns).map Prod.fst = Raw.itemPositions index raws
  | [], [], _, _ => rfl
  | n :: ns, raw :: raws, index, h => by
    rw [allAgree, Bool.and_eq_true] at h
    rw [itemSpots, Raw.itemPositions, List.map_append, map_fst_itemSpots h.2, ← map_fst_spots h.1,
      List.map_map, List.map_map]
    rfl

lemma map_fst_entrySpots : ∀ {entries : List (Node × Node)} {es : List (Raw × Raw)},
    entriesAgree entries es = true →
    (entrySpots entries).map Prod.fst = Raw.entryPositions es
  | [], [], _ => rfl
  | _ :: _, [], h => nomatch entriesAgree_iff.mp h
  | (key, n) :: entries, (name, raw) :: es, h => by
    obtain ⟨hentry, hentries⟩ := List.forall₂_cons.mp (entriesAgree_iff.mp h)
    obtain rfl : name = .str key.segment := hentry.key
    rw [entrySpots, Raw.entryPositions, List.map_append,
      map_fst_entrySpots (entriesAgree_iff.mpr hentries), ← map_fst_spots hentry.value,
      List.map_map, List.map_map]
    rfl

end

/-! ### The source map and the value -/

/-- The way to a part of a value leads through a part of it. -/
lemma exists_route_front {target : Raw} {front rest : List String}
    (h : raw.Route (front ++ rest) target) : ∃ part, raw.Route front part := by
  induction front generalizing raw with
  | nil => exact ⟨raw, .here raw⟩
  | cons segment front ih =>
    cases h with
    | field found hrest =>
      obtain ⟨part, hpart⟩ := ih hrest
      exact ⟨part, .field found hpart⟩
    | item found hrest =>
      obtain ⟨part, hpart⟩ := ih hrest
      exact ⟨part, .item found hpart⟩

/-- The segments of the spots are those of the routes in the value. -/
lemma mem_positions_iff (hagrees : n.agrees raw = true) (hkeyed : raw.isTextKeyed = true) :
    segments ∈ raw.positions ↔ ∃ target, raw.Route segments target := by
  rw [← map_fst_spots hagrees, List.mem_map]
  constructor
  · rintro ⟨s, hs, rfl⟩
    obtain ⟨m, hm, -⟩ := mem_spots.mp hs
    exact exists_route_of_route hagrees hkeyed hm
  · rintro ⟨target, hroute⟩
    obtain ⟨m, hm, -⟩ := exists_route_of_agrees hagrees hroute
    exact ⟨(segments, m.start), mem_spots.mpr ⟨m, hm, rfl⟩, rfl⟩

/-- The value of a node whose keys are texts, and the source map of the node: wherever a part of the
value is, the source map has the position of the node that this part is made of, which is the last
one under its keys. If there are no sets and no ordered mappings, and if the keys are distinct in
every mapping, then the places in the source map are exactly those of the value, in the order of
reading, and with each place the one above it is there. -/
theorem source_map_covers_value (hkeys : n.everywhere keysAreTexts = true) (h : n.toRaw = .ok raw) :
    (∀ segments target, raw.Route segments target → ∃ m, n.FinalRoute segments m
      ∧ m.Produces target
      ∧ Fields.find? n.sourceMap (Pointer.placeOf segments) = some (position m.start))
    ∧ (n.everywhere isOrdinary = true → n.everywhere keysAreDistinct = true →
      Fields.names n.sourceMap = raw.positions.map Pointer.placeOf
      ∧ (∀ segments, segments ∈ raw.positions ↔ ∃ target, raw.Route segments target)
      ∧ ∀ place ∈ Fields.names n.sourceMap, place ≠ "" →
        Pointer.above place ∈ Fields.names n.sourceMap) := by
  refine ⟨fun segments target hroute => ?_, fun hordinary hdistinct => ?_⟩
  · obtain ⟨m, hm, hmade⟩ := exists_finalRoute hkeys h hroute
    exact ⟨m, hm, hmade, find?_sourceMap_of_finalRoute hm⟩
  · obtain ⟨hagrees, hkeyed⟩ := agrees_of_toRaw hordinary hkeys hdistinct h
    have hnames : Fields.names n.sourceMap = raw.positions.map Pointer.placeOf := by
      rw [sourceMap_eq (nodup_spots hagrees hkeyed), names_placed, map_fst_spots hagrees]
    refine ⟨hnames, fun _ => mem_positions_iff hagrees hkeyed, fun place hplace hne => ?_⟩
    rw [hnames] at hplace ⊢
    obtain ⟨segments, hsegments, rfl⟩ := List.mem_map.mp hplace
    rcases List.eq_nil_or_concat' segments with rfl | ⟨front, last, rfl⟩
    · exact absurd rfl hne
    · obtain ⟨target, hroute⟩ := (mem_positions_iff hagrees hkeyed).mp hsegments
      rw [Pointer.above_placeOf]
      exact List.mem_map_of_mem
        ((mem_positions_iff hagrees hkeyed).mpr (exists_route_front hroute))

/-- A text in which a collection is shared, and a key needs an escape. -/
def sharedText : String := "a/b: &x [1, \x7bc: ~\x7d]\nd: *x\n"

theorem source_map_covers_value_shared : ∃ n raw, Yaml.root sharedText = .ok (some n)
    ∧ n.everywhere isOrdinary = true ∧ n.everywhere keysAreTexts = true ∧ n.toRaw = .ok raw
    ∧ n.everywhere keysAreDistinct = true
    ∧ Fields.names n.sourceMap = raw.positions.map Pointer.placeOf
    ∧ Fields.names n.sourceMap = ["", "/a~1b", "/a~1b/0", "/a~1b/1", "/a~1b/1/c", "/d", "/d/0",
      "/d/1", "/d/1/c"]
    ∧ ∃ target m, raw.Route ["d", "1", "c"] target ∧ n.FinalRoute ["d", "1", "c"] m
      ∧ m.Produces target
      ∧ Fields.find? n.sourceMap "/d/1/c" = some ⟨some 1, some 17⟩
      ∧ position m.start = ⟨some 1, some 17⟩ := by
  have hchecks : ((Yaml.root sharedText).toOption.any fun n? => n?.any fun n =>
      n.everywhere isOrdinary && n.everywhere keysAreTexts && n.everywhere keysAreDistinct
        && (Fields.names n.sourceMap == ["", "/a~1b", "/a~1b/0", "/a~1b/1", "/a~1b/1/c", "/d",
          "/d/0", "/d/1", "/d/1/c"])
        && (Fields.find? n.sourceMap "/d/1/c" == some ⟨some 1, some 17⟩)
        && n.toRaw.toOption.any fun raw => raw.positions.contains ["d", "1", "c"]) = true := by
    decide +kernel
  obtain ⟨n?, hroot, hchecks⟩ := exists_ok_of_any hchecks
  obtain ⟨n, rfl, hn⟩ := (Option.any_eq_true ..).mp hchecks
  simp only [Bool.and_eq_true, beq_iff_eq] at hn
  obtain ⟨⟨⟨⟨⟨hordinary, hkeys⟩, hdistinct⟩, hnames⟩, hposition⟩, hraw⟩ := hn
  obtain ⟨raw, hraw, hmem⟩ := exists_ok_of_any hraw
  obtain ⟨hroutes, hplaces⟩ := source_map_covers_value hkeys hraw
  obtain ⟨hcovered, hpositions, -⟩ := hplaces hordinary hdistinct
  obtain ⟨target, hroute⟩ := (hpositions _).mp (List.contains_iff_mem.mp hmem)
  obtain ⟨m, hm, hmade, hfound⟩ := hroutes _ target hroute
  refine ⟨n, raw, hroot, hordinary, hkeys, hraw, hdistinct, hcovered, hnames, target, m, hroute, hm,
    hmade, hposition, ?_⟩
  have hplace : Pointer.placeOf ["d", "1", "c"] = "/d/1/c" := by decide +kernel
  rw [hplace, hposition] at hfound
  exact (Option.some.inj hfound).symm

/-- The members of a set have places, but are no parts of the value that routes lead to. -/
theorem places_of_set_members : ¬∀ text n raw, Yaml.root text = .ok (some n) →
    n.everywhere keysAreTexts = true → n.everywhere keysAreDistinct = true → n.toRaw = .ok raw →
    Fields.names n.sourceMap = raw.positions.map Pointer.placeOf := by
  have hchecks : ((Yaml.root "tags: !!set \x7bblue\x7d\n").toOption.any fun n? => n?.any fun n =>
      n.everywhere keysAreTexts && n.everywhere keysAreDistinct
        && (Fields.names n.sourceMap == ["", "/tags", "/tags/blue"])
        && n.toRaw.toOption.any fun raw => raw.positions == [[], ["tags"]]) = true := by
    decide +kernel
  obtain ⟨n?, hroot, hchecks⟩ := exists_ok_of_any hchecks
  obtain ⟨n, rfl, hn⟩ := (Option.any_eq_true ..).mp hchecks
  simp only [Bool.and_eq_true, beq_iff_eq] at hn
  obtain ⟨⟨⟨hkeys, hdistinct⟩, hnames⟩, hraw⟩ := hn
  obtain ⟨raw, hraw, hpositions⟩ := exists_ok_of_any hraw
  intro h
  have heq := h _ n raw hroot hkeys hdistinct hraw
  rw [hnames, beq_iff_eq.mp hpositions] at heq
  exact absurd (congrArg List.length heq) (by decide)

end Yaml.Node

end ApiLint
