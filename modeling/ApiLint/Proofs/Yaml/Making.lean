import ApiLint.Proofs.Yaml.Values

/-!
# What the parts of nodes are made into

A collection is ordinary if it is neither a set nor an ordered mapping. Where the value of a node is
made whose keys are texts, the parts of an ordinary collection are made into the parts of the value:
the items of a sequence in their order, and under each key what stands last under it. The items of
an ordered mapping give pairs.
-/

namespace ApiLint

namespace Yaml

/-! ### Rounds without faults -/

/-- Where both parts are made without faults in a round, each of them is. -/
lemma sound_of_mergeRounds {fs gs : List (Option YamlFault)}
    (h : ∀ f ∈ mergeRounds fs gs, f = none) : (∀ f ∈ fs, f = none) ∧ ∀ g ∈ gs, g = none := by
  induction fs generalizing gs with
  | nil => simpa [mergeRounds] using h
  | cons f fs ih =>
    cases gs with
    | nil => simpa [mergeRounds] using h
    | cons g gs =>
      rw [mergeRounds, List.forall_mem_cons] at h
      obtain ⟨hfs, hgs⟩ := ih h.2
      cases f with
      | none => exact ⟨List.forall_mem_cons.mpr ⟨rfl, hfs⟩, List.forall_mem_cons.mpr ⟨h.1, hgs⟩⟩
      | some f => cases h.1

/-- A collection is made without faults only if its parts are. -/
lemma sound_of_ofParts {value : Raw} {parts : List (List (Option YamlFault))}
    (h : ∀ f ∈ (Built.ofParts value parts).rounds, f = none) :
    ∀ fs ∈ parts, ∀ f ∈ fs, f = none := by
  replace h : ∀ f ∈ parts.foldr mergeRounds [], f = none := (List.forall_mem_cons.mp h).2
  induction parts with
  | nil => nofun
  | cons fs parts ih =>
    obtain ⟨hfs, hparts⟩ := sound_of_mergeRounds h
    exact List.forall_mem_cons.mpr ⟨hfs, ih hparts⟩

/-! ### Scalars -/

namespace ScalarValue

lemma isScalar_timestamp {text : String} {raw : Raw} (h : timestamp text = .ok raw) :
    raw.isScalar = true := by
  rw [timestamp] at h
  split at h
  · cases h
  · split at h
    · obtain ⟨_, _, rfl⟩ := map_eq_ok_iff.mp h
      rfl
    · split at h
      · cases h
      · next hour minute second micros offset _ =>
        cases offset with
        | none =>
          obtain ⟨t, _, h⟩ := bind_eq_ok_iff.mp h
          cases h
          rfl
        | some o =>
          obtain ⟨_, _, h⟩ := bind_eq_ok_iff.mp h
          obtain ⟨t, _, h⟩ := bind_eq_ok_iff.mp h
          cases h
          rfl

/-- The value of a text is no collection. -/
lemma isScalar_ofText {tag : Tag} {text : String} {raw : Raw} (h : ofText tag text = .ok raw) :
    raw.isScalar = true := by
  cases tag with
  | null | str =>
    cases h
    rfl
  | bool =>
    rw [ofText, boolean] at h
    split at h <;> cases h
    rfl
  | int =>
    obtain ⟨_, _, h⟩ := bind_eq_ok_iff.mp h
    obtain ⟨_, _, h⟩ := bind_eq_ok_iff.mp h
    cases h
    rfl
  | float =>
    obtain ⟨_, _, h⟩ := bind_eq_ok_iff.mp h
    obtain ⟨_, _, h⟩ := bind_eq_ok_iff.mp h
    cases h
    rfl
  | binary =>
    rw [ofText, binary] at h
    split at h
    · split at h <;> cases h
      rfl
    · cases h
  | timestamp => exact isScalar_timestamp h
  | _ => cases h

end ScalarValue

namespace Node

/-! ### Ordinary nodes -/

mutual

/-- Whether a property holds of the node and of all nodes in it, keys aside. -/
def everywhere (p : Node → Bool) : Node → Bool
  | .scalar tag text start => p (.scalar tag text start)
  | .sequence tag items start => p (.sequence tag items start) && everywhereInItems p items
  | .mapping tag entries start => p (.mapping tag entries start) && everywhereInEntries p entries

def everywhereInItems (p : Node → Bool) : List Node → Bool
  | [] => true
  | n :: ns => everywhere p n && everywhereInItems p ns

def everywhereInEntries (p : Node → Bool) : List (Node × Node) → Bool
  | [] => true
  | (_, value) :: es => everywhere p value && everywhereInEntries p es

end

variable {p : Node → Bool} {tag : Tag} {start : Mark} {raw : Raw}

lemma everywhere_sequence {items : List Node} :
    everywhere p (.sequence tag items start) = true
      ↔ p (.sequence tag items start) = true ∧ ∀ n ∈ items, n.everywhere p = true := by
  have hitems : everywhereInItems p items = true ↔ ∀ n ∈ items, n.everywhere p = true := by
    induction items with
    | nil => simp [everywhereInItems]
    | cons n ns ih => simp [everywhereInItems, ih]
  rw [everywhere, Bool.and_eq_true, hitems]

lemma everywhere_mapping {entries : List (Node × Node)} :
    everywhere p (.mapping tag entries start) = true
      ↔ p (.mapping tag entries start) = true ∧ ∀ e ∈ entries, e.2.everywhere p = true := by
  have hentries : everywhereInEntries p entries = true
      ↔ ∀ e ∈ entries, e.2.everywhere p = true := by
    induction entries with
    | nil => simp [everywhereInEntries]
    | cons e es ih => simp [everywhereInEntries, ih]
  rw [everywhere, Bool.and_eq_true, hentries]

/-- Whether the node is a scalar tagged as a text. -/
def isText : Node → Bool
  | .scalar .str _ _ => true
  | _ => false

/-- Whether the keys of the node are texts, if it is a mapping. -/
def keysAreTexts : Node → Bool
  | .mapping _ entries _ => entries.all fun e => e.1.isText
  | _ => true

/-- Whether the keys of the node are distinct, if it is a mapping. -/
def keysAreDistinct : Node → Bool
  | .mapping _ entries _ => decide (entries.map fun e => e.1.segment).Nodup
  | _ => true

/-- Whether the node is neither a set nor an ordered mapping. -/
def isOrdinary : Node → Bool
  | .mapping tag _ _ => tag != .set
  | .sequence tag _ _ => tag != .omap && tag != .pairs
  | _ => true

lemma exists_of_isText {n : Node} (h : n.isText = true) :
    ∃ text start, n = .scalar .str text start := by
  cases n with
  | scalar tag text start =>
    cases tag with
    | str => exact ⟨text, start, rfl⟩
    | _ => cases h
  | _ => cases h

/-- What the node is made into, whether or not there are faults. -/
def value (n : Node) : Raw := n.made.built.value

/-- The entry that an entry of a mapping is made into. -/
def entryValue (e : Node × Node) : Raw × Raw := (.str e.1.segment, e.2.value)

lemma exists_text_of_mem {entries : List (Node × Node)} :
    ∀ f ∈ entries.map entryValue, ∃ name, f.1 = .str name := by
  intro f hf
  obtain ⟨e, -, rfl⟩ := List.mem_map.mp hf
  exact ⟨e.1.segment, rfl⟩

lemma toRaw_eq_ok_iff {n : Node} :
    n.toRaw = .ok raw ↔ n.value = raw ∧ ∀ f ∈ n.made.built.rounds, f = none := by
  have hnone : n.made.built.rounds.findSome? id = none ↔ ∀ f ∈ n.made.built.rounds, f = none :=
    List.findSome?_eq_none_iff
  rw [toRaw, Built.result, ← hnone]
  cases n.made.built.rounds.findSome? id with
  | none => simp [value]
  | some f => simp

/-- A scalar is made into what its text stands for. -/
lemma toRaw_scalar (tag : Tag) (text : String) (start : Mark) :
    (Node.scalar tag text start).toRaw = ScalarValue.ofText tag text := by
  have hresult : ∀ x : Except YamlFault Raw, (Built.ofExcept x).result = x := by
    rintro (f | raw) <;> rfl
  rw [toRaw, made, Made.ofScalar.eq_def]
  cases tag with
  | seq | map | set | omap | pairs => rfl
  | _ =>
    dsimp only
    rw [hresult]

/-- What a node comes to in the place of a value: it is made into the value, or, as an item of an
ordered mapping, it is a mapping of one entry that gives a pair. -/
inductive Produces : Node → Raw → Prop
  | whole {n : Node} {raw : Raw} (h : n.toRaw = .ok raw) : Produces n raw
  | pair {tag : Tag} {key value : Node} {start : Mark} {k v : Raw} (hkey : key.toRaw = .ok k)
      (hvalue : value.toRaw = .ok v) : Produces (.mapping tag [(key, value)] start) (.pair k v)

/-- Items of an ordered mapping that are made without faults are mappings of one entry. -/
lemma produces_pairOf {n : Node} (h : ∀ fs ∈ n.made.pairOf.2, ∀ f ∈ fs, f = none) :
    n.Produces n.made.pairOf.1 := by
  cases n with
  | scalar tag text start => cases h _ (List.mem_singleton_self _) _ (List.mem_singleton_self _)
  | sequence tag items start => cases h _ (List.mem_singleton_self _) _ (List.mem_singleton_self _)
  | mapping tag entries start =>
    match entries with
    | [(key, value)] =>
      refine .pair (toRaw_eq_ok_iff.mpr ⟨rfl, ?_⟩) (toRaw_eq_ok_iff.mpr ⟨rfl, ?_⟩)
      · exact h key.made.built.rounds (List.mem_cons_self ..)
      · exact h value.made.built.rounds (List.mem_cons_of_mem _ (List.mem_singleton_self _))
    | [] => cases h _ (List.mem_singleton_self _) _ (List.mem_singleton_self _)
    | _ :: _ :: _ => cases h _ (List.mem_singleton_self _) _ (List.mem_singleton_self _)

/-- An ordered mapping is made into the list of the pairs that its items give. -/
lemma toRaw_pairs {items : List Node}
    (hmade : (made (.sequence tag items start)).built = .ofParts
      (.list (items.map fun n => n.made.pairOf.1)) (items.flatMap fun n => n.made.pairOf.2))
    (h : (sequence tag items start).toRaw = .ok raw) :
    raw = .list (items.map fun n => n.made.pairOf.1)
      ∧ ∀ n ∈ items, n.Produces n.made.pairOf.1 := by
  obtain ⟨rfl, hsound⟩ := toRaw_eq_ok_iff.mp h
  rw [hmade] at hsound
  refine ⟨by rw [value, hmade]; rfl, fun n hn => produces_pairOf fun fs hfs => ?_⟩
  exact sound_of_ofParts hsound fs (List.mem_flatMap.mpr ⟨n, hn, hfs⟩)

/-- A sequence is made into the list of what its items are made into, or of pairs. -/
lemma toRaw_sequence {items : List Node} (h : (sequence tag items start).toRaw = .ok raw) :
    ((sequence tag items start).isOrdinary = false
      ∧ raw = .list (items.map fun n => n.made.pairOf.1)
      ∧ ∀ n ∈ items, n.Produces n.made.pairOf.1)
    ∨ raw = .list (items.map value) ∧ ∀ n ∈ items, n.toRaw = .ok n.value := by
  cases tag with
  | seq =>
    obtain ⟨rfl, hsound⟩ := toRaw_eq_ok_iff.mp h
    rw [built_sequence] at hsound
    refine .inr ⟨?_, fun n hn => toRaw_eq_ok_iff.mpr ⟨rfl, ?_⟩⟩
    · rw [value, built_sequence, Built.ofItems, Built.ofParts, List.map_map]
      rfl
    · exact sound_of_ofParts hsound _ (by simpa using ⟨n, hn, rfl⟩)
  | omap | pairs =>
    refine .inl ⟨rfl, toRaw_pairs ?_ h⟩
    simp only [made, madeItems_eq, Made.ofSequence, List.map_map, List.flatMap_map]
    rfl
  | _ => cases h

/-- A mapping whose keys are texts is made into the mapping of what its entries are made into, or
into a set. -/
lemma toRaw_mapping {entries : List (Node × Node)}
    (hkeys : (mapping tag entries start).keysAreTexts = true)
    (h : (mapping tag entries start).toRaw = .ok raw) :
    ((mapping tag entries start).isOrdinary = false ∧ ∃ xs, raw = .set xs)
    ∨ raw = .dict (Entries.ofList (entries.map entryValue))
      ∧ ∀ e ∈ entries, e.2.toRaw = .ok e.2.value := by
  have htexts : ∀ e ∈ entries, ∃ text start, e.1 = .scalar .str text start := fun e he =>
    exists_of_isText (List.all_eq_true.mp hkeys e he)
  have hdefault : (madeEntries entries).find? (fun e => e.1.tag = Tag.defaultValue) = none := by
    rw [madeEntries_eq, List.find?_eq_none]
    intro m hm
    obtain ⟨e, he, rfl⟩ := List.mem_map.mp hm
    obtain ⟨text, start, hkey⟩ := htexts e he
    rw [hkey]
    simp [made, Made.ofScalar, Tag.defaultValue]
  -- Texts are never the key of a default value, so a mapping of another tag is a fault.
  cases tag with
  | map =>
    obtain ⟨rfl, hsound⟩ := toRaw_eq_ok_iff.mp h
    rw [built_mapping htexts] at hsound
    refine .inr ⟨?_, fun e he => toRaw_eq_ok_iff.mpr ⟨rfl, ?_⟩⟩
    · rw [value, built_mapping htexts]
      simp only [Built.ofEntries, Built.ofParts, List.map_map]
      rfl
    · refine sound_of_ofParts hsound _ (List.mem_flatMap.mpr ⟨_, List.mem_map_of_mem he, ?_⟩)
      simp [Built.entryRounds]
  | set =>
    have hmade : (made (.mapping .set entries start)).built
        = .ofKeys (entries.map fun e => (.sound (.str e.1.segment), e.2.made.built)) := by
      rw [made, Made.ofMapping, allEntries_eq htexts]
      rfl
    obtain ⟨rfl, -⟩ := toRaw_eq_ok_iff.mp h
    exact .inl ⟨rfl, _, by rw [value, hmade, Built.ofKeys, Built.ofParts]⟩
  | seq | omap | pairs => cases h
  | _ =>
    simp only [toRaw, made, Made.ofMapping, hdefault] at h
    cases h

end Node

end Yaml

end ApiLint
