import ApiLint.Proofs.Document.Reading
import ApiLint.Proofs.Raw.Places
import ApiLint.Yaml

/-!
# The places in a source map

A source map knows the place of every node of a document, and no others, as long as the keys of
every mapping are distinct texts. So the position of a place that it does not know is that of the
last node on the way there. Where the nodes and the value of a document agree, the places are those
of the parts of the value.
-/

namespace ApiLint

/-! ### Places -/

namespace Pointer

lemma beginnings_append (xs ys : List Char) :
    beginnings (xs ++ ys) = beginnings xs ++ (beginnings ys).map (xs ++ ·) := by
  induction xs with
  | nil => simp [beginnings]
  | cons x xs ih =>
    simp only [List.cons_append, beginnings, ih, List.map_append, List.map_map]
    split <;> rfl

lemma beginnings_eq_nil {cs : List Char} (h : '/' ∉ cs) : beginnings cs = [] := by
  induction cs with
  | nil => rfl
  | cons c cs ih =>
    rw [List.mem_cons, not_or] at h
    rw [beginnings, ih h.2, if_neg (Ne.symm h.1), List.map_nil]

lemma toList_placeOf_concat (segments : List String) (segment : String) :
    (placeOf (segments ++ [segment])).toList
      = (placeOf segments).toList ++ '/' :: escapeChars segment.toList := by
  simp [placeOf_concat, push, escape]

/-- Around a place lie the place without the last segment and what lies around that. -/
lemma enclosing_concat (segments : List String) (segment : String) :
    enclosing (placeOf (segments ++ [segment]))
      = placeOf (segments ++ [segment]) :: enclosing (placeOf segments) := by
  have hbeginnings : beginnings (placeOf (segments ++ [segment])).toList
      = beginnings (placeOf segments).toList ++ [(placeOf segments).toList] := by
    rw [toList_placeOf_concat, beginnings_append, beginnings, if_pos rfl,
      beginnings_eq_nil (slash_notMem_escapeChars _)]
    simp
  simp [enclosing, hbeginnings]

end Pointer

namespace SourceMap

open Pointer

variable {m : SourceMap} {front segments : List String} {position : SourcePosition}

/-- The position of a place is that of the last known place on the way. -/
lemma positionOf_eq (hfront : Fields.find? m (placeOf front) = some position)
    (hknown : position.isKnown = true) (hbegins : front <+: segments)
    (hlonger : ∀ longer, longer <+: segments → front.length < longer.length →
      Fields.find? m (placeOf longer) = none) : m.positionOf (placeOf segments) = position := by
  induction segments using List.reverseRecOn with
  | nil =>
    rw [List.prefix_nil.mp hbegins] at hfront
    change Fields.find? m "" = _ at hfront
    simp [positionOf, placeOf, enclosing, beginnings, hfront, Option.filter, hknown]
  | append_singleton segments segment ih =>
    rw [positionOf, enclosing_concat, List.findSome?_cons]
    rcases List.prefix_concat_iff.mp hbegins with rfl | hshorter
    · simp [hfront, Option.filter, hknown]
    · have hnone := hlonger (segments ++ [segment]) (List.prefix_refl _)
        (by simpa using Nat.lt_succ_of_le hshorter.length_le)
      rw [hnone]
      exact ih hshorter fun longer hbegins' =>
        hlonger longer (hbegins'.trans (List.prefix_append ..))

end SourceMap

/-- Whether the value is no collection. -/
def Raw.isScalar : Raw → Bool
  | .list _ | .pair .. | .set _ | .dict _ => false
  | _ => true

namespace Yaml.Node

/-! ### Nodes and their places -/

/-- A route leads from a node to a node in it, by the texts of keys and by indices. -/
inductive Route : Node → List String → Node → Prop
  | here (n : Node) : Route n [] n
  | field {tag : Tag} {entries : List (Node × Node)} {start : Mark} {key value target : Node}
      {segments : List String} (found : (key, value) ∈ entries)
      (rest : Route value segments target) :
      Route (.mapping tag entries start) (key.segment :: segments) target
  | item {tag : Tag} {items : List Node} {start : Mark} {index : Nat} {n target : Node}
      {segments : List String} (found : items[index]? = some n) (rest : Route n segments target) :
      Route (.sequence tag items start) (writtenNat index :: segments) target

mutual

/-- The routes in a node in the order of reading, with the marks of the nodes at their ends. -/
def spots : Node → List (List String × Mark)
  | .scalar _ _ start => [([], start)]
  | .sequence _ items start => ([], start) :: itemSpots 0 items
  | .mapping _ entries start => ([], start) :: entrySpots entries

def itemSpots (index : Nat) : List Node → List (List String × Mark)
  | [] => []
  | n :: ns =>
    (spots n).map (fun s => (writtenNat index :: s.1, s.2)) ++ itemSpots (index + 1) ns

def entrySpots : List (Node × Node) → List (List String × Mark)
  | [] => []
  | (key, value) :: es => (spots value).map (fun s => (key.segment :: s.1, s.2)) ++ entrySpots es

end

lemma mem_itemSpots {index : Nat} {ns : List Node} {s : List String × Mark} :
    s ∈ itemSpots index ns ↔ ∃ i n rest, ns[i]? = some n ∧ s.1 = writtenNat (index + i) :: rest
      ∧ (rest, s.2) ∈ n.spots := by
  induction ns generalizing index with
  | nil => simp [itemSpots]
  | cons n ns ih =>
    rw [itemSpots, List.mem_append, ih]
    constructor
    · rintro (h | ⟨i, m, rest, hm, hs, hrest⟩)
      · obtain ⟨t, ht, rfl⟩ := List.mem_map.mp h
        exact ⟨0, n, t.1, rfl, rfl, ht⟩
      · exact ⟨i + 1, m, rest, hm, by rw [hs, Nat.add_right_comm, Nat.add_assoc], hrest⟩
    · rintro ⟨i, m, rest, hm, hs, hrest⟩
      cases i with
      | zero =>
        cases hm
        exact .inl (List.mem_map.mpr ⟨_, hrest, by rw [← Nat.add_zero index, ← hs]⟩)
      | succ i =>
        exact .inr ⟨i, m, rest, hm, by rw [hs, Nat.add_right_comm, Nat.add_assoc], hrest⟩

lemma mem_entrySpots {es : List (Node × Node)} {s : List String × Mark} :
    s ∈ entrySpots es ↔ ∃ e ∈ es, ∃ rest, s.1 = e.1.segment :: rest ∧ (rest, s.2) ∈ e.2.spots := by
  induction es with
  | nil => simp [entrySpots]
  | cons e es ih =>
    obtain ⟨key, value⟩ := e
    rw [entrySpots, List.mem_append, ih]
    constructor
    · rintro (h | ⟨e, he, hrest⟩)
      · obtain ⟨t, ht, rfl⟩ := List.mem_map.mp h
        exact ⟨(key, value), List.mem_cons_self .., t.1, rfl, ht⟩
      · exact ⟨e, List.mem_cons_of_mem _ he, hrest⟩
    · rintro ⟨e, he, rest, hs, hrest⟩
      rcases List.mem_cons.mp he with rfl | he
      · exact .inl (List.mem_map.mpr ⟨_, hrest, by rw [← hs]⟩)
      · exact .inr ⟨e, he, rest, hs, hrest⟩

lemma mem_spots_of_route {n m : Node} {segments : List String} (h : n.Route segments m) :
    (segments, m.start) ∈ n.spots := by
  induction h with
  | here n => cases n <;> exact List.mem_cons_self ..
  | @field tag entries start key value target segments found _ ih =>
    rw [spots]
    exact List.mem_cons_of_mem _ (mem_entrySpots.mpr ⟨_, found, segments, rfl, ih⟩)
  | @item tag items start index n target segments found _ ih =>
    rw [spots]
    refine List.mem_cons_of_mem _ (mem_itemSpots.mpr ⟨index, n, segments, found, ?_, ih⟩)
    rw [Nat.zero_add]

lemma exists_route_of_mem_spots : ∀ {n : Node} {segments : List String} {mark : Mark},
    (segments, mark) ∈ n.spots → ∃ m, n.Route segments m ∧ m.start = mark
  | .scalar tag text start, segments, mark, h => by
    cases List.mem_singleton.mp h
    exact ⟨_, .here _, rfl⟩
  | .sequence tag items start, segments, mark, h => by
    rw [spots, List.mem_cons, mem_itemSpots] at h
    rcases h with h | ⟨i, n, rest, hn, hs, hrest⟩
    · cases h
      exact ⟨_, .here _, rfl⟩
    · have := List.sizeOf_lt_of_mem (List.mem_of_getElem? hn)
      obtain ⟨m, hroute, hmark⟩ := exists_route_of_mem_spots hrest
      rw [Nat.zero_add] at hs
      dsimp only at hs
      exact ⟨m, hs ▸ .item hn hroute, hmark⟩
  | .mapping tag entries start, segments, mark, h => by
    rw [spots, List.mem_cons, mem_entrySpots] at h
    rcases h with h | ⟨⟨key, value⟩, he, rest, hs, hrest⟩
    · cases h
      exact ⟨_, .here _, rfl⟩
    · have := List.sizeOf_lt_of_mem he
      obtain ⟨m, hroute, hmark⟩ := exists_route_of_mem_spots hrest
      dsimp only at hs
      exact ⟨m, hs ▸ .field he hroute, hmark⟩
termination_by n => sizeOf n
decreasing_by
  all_goals simp_all; omega

/-- The spots are the ends of the routes. -/
lemma mem_spots {n : Node} {s : List String × Mark} :
    s ∈ n.spots ↔ ∃ m, n.Route s.1 m ∧ m.start = s.2 := by
  obtain ⟨segments, mark⟩ := s
  constructor
  · exact exists_route_of_mem_spots
  · rintro ⟨m, hroute, rfl⟩
    exact mem_spots_of_route hroute

/-! ### The source map of a node -/

/-- The entries of the source map for the spots of a node at a place. -/
def placed (place : String) (spots : List (List String × Mark)) : SourceMap :=
  spots.map fun s => (s.1.foldl Pointer.push place, position s.2)

lemma placed_append (place : String) (xs ys : List (List String × Mark)) :
    placed place (xs ++ ys) = placed place xs ++ placed place ys := List.map_append

lemma placed_below (place segment : String) (spots : List (List String × Mark)) :
    placed place (spots.map fun s => (segment :: s.1, s.2))
      = placed (Pointer.push place segment) spots := by
  simp [placed]

lemma merge_append (m xs ys : SourceMap) :
    Fields.merge m (xs ++ ys) = Fields.merge (Fields.merge m xs) ys := List.foldl_append

mutual

/-- Reading adds the spots of a node one after the other. -/
lemma addPlaces_eq (place : String) : ∀ (n : Node) (m : SourceMap),
    n.addPlaces place m = Fields.merge m (placed place n.spots)
  | .scalar _ _ start, m => by rw [addPlaces, spots]; rfl
  | .sequence _ items start, m => by
    rw [addPlaces, addItemPlaces_eq place 0 items, spots]
    rfl
  | .mapping _ entries start, m => by
    rw [addPlaces, addEntryPlaces_eq place entries, spots]
    rfl

lemma addItemPlaces_eq (place : String) (index : Nat) : ∀ (ns : List Node) (m : SourceMap),
    addItemPlaces place index ns m = Fields.merge m (placed place (itemSpots index ns))
  | [], m => rfl
  | n :: ns, m => by
    rw [addItemPlaces, addPlaces_eq _ n, addItemPlaces_eq place (index + 1) ns, itemSpots,
      placed_append, merge_append, placed_below]

lemma addEntryPlaces_eq (place : String) : ∀ (es : List (Node × Node)) (m : SourceMap),
    addEntryPlaces place es m = Fields.merge m (placed place (entrySpots es))
  | [], m => rfl
  | (key, value) :: es, m => by
    rw [addEntryPlaces, addPlaces_eq _ value, addEntryPlaces_eq place es, entrySpots, placed_append,
      merge_append, placed_below]

end

variable {n : Node} {raw : Raw}

lemma names_placed (spots : List (List String × Mark)) :
    Fields.names (placed "" spots) = (spots.map Prod.fst).map Pointer.placeOf := by
  simp only [Fields.names, placed, List.map_map]
  rfl

/-- If all routes are distinct, then the source map is the list of the spots. -/
lemma sourceMap_eq (h : (n.spots.map Prod.fst).Nodup) : n.sourceMap = placed "" n.spots := by
  have hnames : (Fields.names (placed "" n.spots)).Nodup := by
    rw [names_placed]
    exact h.map Pointer.placeOf_injective
  have hmerge : Fields.merge [] (placed "" n.spots) = [] ++ placed "" n.spots :=
    Fields.merge_eq_append hnames
  rw [sourceMap, addPlaces_eq, hmerge, List.nil_append]

/-- Then it knows the places at the ends of routes, with the positions of the nodes there. -/
lemma find?_sourceMap (h : (n.spots.map Prod.fst).Nodup) {segments : List String} {m : Node}
    (hroute : n.Route segments m) :
    Fields.find? n.sourceMap (Pointer.placeOf segments) = some (position m.start) := by
  have hspot : (segments, m.start) ∈ n.spots := mem_spots.mpr ⟨m, hroute, rfl⟩
  have hentry : (Pointer.placeOf segments, position m.start) ∈ n.sourceMap := by
    rw [sourceMap_eq h]
    exact List.mem_map_of_mem (f := fun s => (Pointer.placeOf s.1, position s.2)) hspot
  refine Fields.find?_of_mem ?_ hentry
  rw [sourceMap_eq h, names_placed]
  exact h.map Pointer.placeOf_injective

lemma find?_sourceMap_eq_none (h : (n.spots.map Prod.fst).Nodup) {segments : List String}
    (hnone : ∀ m, ¬n.Route segments m) :
    Fields.find? n.sourceMap (Pointer.placeOf segments) = none := by
  rw [Fields.find?_eq_none_iff, sourceMap_eq h, names_placed]
  intro hmem
  obtain ⟨_, hsegments, heq⟩ := List.mem_map.mp hmem
  obtain ⟨s, hs, rfl⟩ := List.mem_map.mp hsegments
  obtain ⟨m, hroute, _⟩ := mem_spots.mp hs
  exact hnone m (Pointer.placeOf_injective heq ▸ hroute)

/-! ### Agreement with a value -/

mutual

/-- Whether a node and a value have the same structure: sequences are lists, mappings are mappings
from the texts of their keys, which are scalars, and scalars are scalars. -/
def agrees : Node → Raw → Bool
  | .scalar .., raw => raw.isScalar
  | .sequence _ items _, .list raws => allAgree items raws
  | .mapping _ entries _, .dict es => entriesAgree entries es
  | _, _ => false

def allAgree : List Node → List Raw → Bool
  | [], [] => true
  | n :: ns, raw :: raws => n.agrees raw && allAgree ns raws
  | _, _ => false

def entriesAgree : List (Node × Node) → List (Raw × Raw) → Bool
  | [], [] => true
  | (.scalar _ text _, n) :: entries, (.str name, raw) :: es =>
    text == name && n.agrees raw && entriesAgree entries es
  | _, _ => false

end

lemma allAgree_iff {ns : List Node} {raws : List Raw} :
    allAgree ns raws = true ↔ List.Forall₂ (fun n raw => n.agrees raw = true) ns raws := by
  induction ns generalizing raws with
  | nil => cases raws <;> simp [allAgree]
  | cons n ns ih => cases raws <;> simp [allAgree, ih]

/-- An entry of a node agrees with an entry of a value. -/
def EntryAgrees (e : Node × Node) (f : Raw × Raw) : Prop :=
  ∃ tag text start, e.1 = .scalar tag text start ∧ f.1 = .str text ∧ e.2.agrees f.2 = true

lemma EntryAgrees.key {e : Node × Node} {f : Raw × Raw} (h : EntryAgrees e f) :
    f.1 = .str e.1.segment := by
  obtain ⟨_, _, _, hkey, hname, _⟩ := h
  rw [hkey, hname]
  rfl

lemma EntryAgrees.value {e : Node × Node} {f : Raw × Raw} (h : EntryAgrees e f) :
    e.2.agrees f.2 = true := by
  obtain ⟨_, _, _, _, _, h⟩ := h
  exact h

lemma entriesAgree_iff {entries : List (Node × Node)} {es : Entries} :
    entriesAgree entries es = true ↔ List.Forall₂ EntryAgrees entries es := by
  induction entries generalizing es with
  | nil => cases es <;> simp [entriesAgree]
  | cons e entries ih =>
    obtain ⟨key, n⟩ := e
    cases es with
    | nil => simp [entriesAgree]
    | cons f es =>
      obtain ⟨name, raw⟩ := f
      rw [List.forall₂_cons, ← ih]
      constructor
      · intro h
        unfold entriesAgree at h
        split at h
        · next heq => cases heq
        · next heq heq' =>
          cases heq
          cases heq'
          simp only [Bool.and_eq_true, beq_iff_eq] at h
          exact ⟨⟨_, _, _, rfl, by rw [h.1.1], h.1.2⟩, h.2⟩
        · cases h
      · rintro ⟨⟨tag, text, start, hkey, hname, hagrees⟩, hrest⟩
        dsimp only at hkey hname
        subst hkey hname
        simp [entriesAgree, hrest, show n.agrees raw = true from hagrees]

/-- A sequence agrees with a list. -/
lemma exists_list_of_agrees {tag : Tag} {items : List Node} {start : Mark}
    (h : (Node.sequence tag items start).agrees raw = true) :
    ∃ raws, raw = .list raws ∧ List.Forall₂ (fun n raw => n.agrees raw = true) items raws := by
  cases raw with
  | list raws => exact ⟨raws, rfl, allAgree_iff.mp h⟩
  | _ => cases h

/-- A mapping agrees with a mapping. -/
lemma exists_dict_of_agrees {tag : Tag} {entries : List (Node × Node)} {start : Mark}
    (h : (Node.mapping tag entries start).agrees raw = true) :
    ∃ es, raw = .dict es ∧ List.Forall₂ EntryAgrees entries es := by
  cases raw with
  | dict es => exact ⟨es, rfl, entriesAgree_iff.mp h⟩
  | _ => cases h

/-- Where a route leads from a value, it leads from a node that agrees with the value. -/
lemma exists_route_of_agrees (h : n.agrees raw = true) {segments : List String} {target : Raw}
    (hroute : raw.Route segments target) : ∃ m, n.Route segments m ∧ m.agrees target = true := by
  induction hroute generalizing n with
  | here raw => exact ⟨n, .here n, h⟩
  | @field es name value target segments found _ ih =>
    cases n with
    | mapping tag entries start =>
      obtain ⟨e, he, hentry⟩ :=
        exists_of_forall₂_of_mem_right (entriesAgree_iff.mp h) (Entries.mem_of_field? found)
      obtain ⟨m, hroute, hm⟩ := ih hentry.value
      have hname : name = e.1.segment := Raw.str.inj hentry.key
      exact ⟨m, hname ▸ .field he hroute, hm⟩
    | _ => cases h
  | @item raws index x target segments found _ ih =>
    cases n with
    | sequence tag items start =>
      obtain ⟨i, hi, heq⟩ := List.getElem?_eq_some_iff.mp found
      have hagree := allAgree_iff.mp h
      have hlt : index < items.length := hagree.length_eq ▸ i
      obtain ⟨m, hroute, hm⟩ := ih (hagree.get hlt i)
      exact ⟨m, .item (List.getElem?_eq_getElem hlt) hroute, hm⟩
    | _ => cases h

/-- Where a route leads from a node, it leads from a text-keyed value that agrees with it. -/
lemma exists_route_of_route (h : n.agrees raw = true) (hraw : raw.isTextKeyed = true)
    {segments : List String} {m : Node} (hroute : n.Route segments m) :
    ∃ target, raw.Route segments target := by
  induction hroute generalizing raw with
  | here n => exact ⟨raw, .here raw⟩
  | @field tag entries start key value target segments found _ ih =>
    obtain ⟨es, rfl, hentries⟩ := exists_dict_of_agrees h
    obtain ⟨f, hf, hentry⟩ := exists_of_forall₂_of_mem_left hentries found
    obtain ⟨target, hroute⟩ := ih hentry.value (Raw.isTextKeyed_of_mem_dict hraw hf).2
    have hname : f.1 = .str key.segment := hentry.key
    exact ⟨target, .field (Raw.field?_of_mem hraw (hname ▸ hf)) hroute⟩
  | @item tag items start index n target segments found _ ih =>
    obtain ⟨raws, rfl, hitems⟩ := exists_list_of_agrees h
    obtain ⟨x, hx, hagrees⟩ := getElem?_of_forall₂ hitems found
    obtain ⟨target, hroute⟩ :=
      ih hagrees (Raw.isTextKeyed_of_mem_list hraw (List.mem_of_getElem? hx))
    exact ⟨target, .item hx hroute⟩

/-! ### Distinct routes -/

/-- Routes that go on under a segment are distinct from routes that do not start with it. -/
lemma nodup_below_append {segment : String} {spots others : List (List String × Mark)}
    (h : (spots.map Prod.fst).Nodup) (hothers : (others.map Prod.fst).Nodup)
    (hnew : ∀ u ∈ others, ∀ rest, u.1 ≠ segment :: rest) :
    ((spots.map (fun s => (segment :: s.1, s.2)) ++ others).map Prod.fst).Nodup := by
  have hmap : (spots.map fun s => (segment :: s.1, s.2)).map Prod.fst
      = (spots.map Prod.fst).map (segment :: ·) := by
    rw [List.map_map, List.map_map]
    rfl
  rw [List.map_append, hmap, List.nodup_append]
  refine ⟨h.map fun _ _ heq => List.tail_eq_of_cons_eq heq, hothers, ?_⟩
  rintro _ hfirst _ hother rfl
  obtain ⟨rest, _, heq⟩ := List.mem_map.mp hfirst
  obtain ⟨u, hu, heq'⟩ := List.mem_map.mp hother
  exact hnew u hu rest (heq'.trans heq.symm)

lemma nodup_itemSpots {index : Nat} {ns : List Node}
    (h : ∀ n ∈ ns, (n.spots.map Prod.fst).Nodup) : ((itemSpots index ns).map Prod.fst).Nodup := by
  induction ns generalizing index with
  | nil => exact List.nodup_nil
  | cons n ns ih =>
    obtain ⟨hn, hns⟩ := List.forall_mem_cons.mp h
    rw [itemSpots]
    refine nodup_below_append hn (ih hns) fun u hu rest heq => ?_
    obtain ⟨i, _, _, _, hsegments, _⟩ := mem_itemSpots.mp hu
    have hindex := congrArg indexOf? (List.cons.inj (heq.symm.trans hsegments)).1
    simp only [indexOf?_writtenNat, Option.some.injEq] at hindex
    omega

lemma nodup_entrySpots {entries : List (Node × Node)}
    (hkeys : (entries.map fun e => e.1.segment).Nodup)
    (h : ∀ e ∈ entries, (e.2.spots.map Prod.fst).Nodup) :
    ((entrySpots entries).map Prod.fst).Nodup := by
  induction entries with
  | nil => exact List.nodup_nil
  | cons e entries ih =>
    obtain ⟨key, value⟩ := e
    obtain ⟨hvalue, hothers⟩ := List.forall_mem_cons.mp h
    rw [List.map_cons, List.nodup_cons] at hkeys
    rw [entrySpots]
    refine nodup_below_append hvalue (ih hkeys.2 hothers) fun u hu rest heq => ?_
    obtain ⟨e, he, _, hsegments, _⟩ := mem_entrySpots.mp hu
    have hsegment : key.segment = e.1.segment := (List.cons.inj (heq.symm.trans hsegments)).1
    exact hkeys.1 (List.mem_map.mpr ⟨e, he, hsegment.symm⟩)

/-- In a node that agrees with a text-keyed value all routes are distinct. -/
lemma nodup_spots : ∀ {n : Node} {raw : Raw}, n.agrees raw = true → raw.isTextKeyed = true →
    (n.spots.map Prod.fst).Nodup
  | .scalar .., _, _, _ => by
    rw [spots]
    exact List.nodup_singleton _
  | .sequence tag items start, _, h, hraw => by
    obtain ⟨raws, rfl, hitems⟩ := exists_list_of_agrees h
    rw [spots, List.map_cons, List.nodup_cons]
    refine ⟨?_, nodup_itemSpots fun n hn => ?_⟩
    · intro hmem
      obtain ⟨s, hs, heq⟩ := List.mem_map.mp hmem
      obtain ⟨_, _, _, _, hsegments, _⟩ := mem_itemSpots.mp hs
      rw [heq] at hsegments
      cases hsegments
    · have := List.sizeOf_lt_of_mem hn
      obtain ⟨x, hx, hagrees⟩ := exists_of_forall₂_of_mem_left hitems hn
      exact nodup_spots hagrees (Raw.isTextKeyed_of_mem_list hraw hx)
  | .mapping tag entries start, _, h, hraw => by
    obtain ⟨es, rfl, hentries⟩ := exists_dict_of_agrees h
    rw [spots, List.map_cons, List.nodup_cons]
    refine ⟨?_, nodup_entrySpots ?_ fun ⟨key, value⟩ he => ?_⟩
    · intro hmem
      obtain ⟨s, hs, heq⟩ := List.mem_map.mp hmem
      obtain ⟨_, _, _, hsegments, _⟩ := mem_entrySpots.mp hs
      rw [heq] at hsegments
      cases hsegments
    · have hnames : (entries.map fun e => e.1.segment) = es.map fun f => f.1.text := by
        rw [← List.forall₂_eq_eq_eq, List.forall₂_map_left_iff, List.forall₂_map_right_iff]
        exact hentries.imp fun e f hentry => by rw [hentry.key, Raw.text_str]
      rw [hnames]
      exact Raw.nodup_names hraw
    · have := List.sizeOf_lt_of_mem he
      obtain ⟨f, hf, hentry⟩ := exists_of_forall₂_of_mem_left hentries he
      exact nodup_spots hentry.value (Raw.isTextKeyed_of_mem_dict hraw hf).2
termination_by n => sizeOf n
decreasing_by
  all_goals simp_all; omega

end Yaml.Node

end ApiLint
