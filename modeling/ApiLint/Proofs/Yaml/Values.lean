import ApiLint.Proofs.Raw.TextKeyed
import ApiLint.Proofs.Yaml.Places

/-!
# What nodes stand for

A node denotes a raw value if it is made into the value without faults, and has its structure.
Scalars denote what their text stands for under their tag, sequences and mappings are put together
of what denotes their parts.
-/

namespace ApiLint

/-! ### Entries with distinct keys -/

namespace Entries

lemma insert_eq_append {es : Entries} {key : Raw} (h : ∀ e ∈ es, e.1.sameKey key = false)
    (value : Raw) : es.insert key value = es ++ [(key, value)] := by
  induction es with
  | nil => rfl
  | cons e es ih =>
    rw [List.forall_mem_cons] at h
    rw [insert, h.1, if_neg Bool.false_ne_true, ih h.2]
    rfl

/-- Entries with distinct keys, put in one after the other, stay as they are. -/
lemma foldl_insert (front : Entries) {back : Entries}
    (h : (front ++ back).Pairwise fun e f => e.1.sameKey f.1 = false) :
    back.foldl (fun es e => insert es e.1 e.2) front = front ++ back := by
  induction back generalizing front with
  | nil => exact (List.append_nil front).symm
  | cons e back ih =>
    have hfront : ∀ f ∈ front, f.1.sameKey e.1 = false := fun f hf =>
      (List.pairwise_append.mp h).2.2 f hf e (List.mem_cons_self ..)
    rw [List.append_cons] at h
    rw [List.foldl_cons, insert_eq_append hfront, ih _ h, ← List.append_cons]

lemma pairwise_of_isTextKeyed {es : Entries} (h : (Raw.dict es).isTextKeyed = true) :
    es.Pairwise fun e f => e.1.sameKey f.1 = false := by
  have hnames := List.pairwise_map.mp (Raw.nodup_names h)
  refine hnames.imp_of_mem fun {e f} he hf hne => ?_
  obtain ⟨name, hname⟩ := (Raw.isTextKeyed_of_mem_dict h he).1
  obtain ⟨name', hname'⟩ := (Raw.isTextKeyed_of_mem_dict h hf).1
  rw [hname, hname', Raw.text_str, Raw.text_str] at hne
  rw [hname, hname', Raw.sameKey_str]
  exact beq_eq_false_iff_ne.mpr hne

lemma ofList_of_isTextKeyed {es : Entries} (h : (Raw.dict es).isTextKeyed = true) :
    ofList es = es := foldl_insert [] (pairwise_of_isTextKeyed h)

end Entries

namespace Yaml

/-! ### Rounds -/

/-- What holds of all rounds of two parts holds of all rounds in which both are made. -/
lemma forall_mem_mergeRounds {P : Option YamlFault → Prop} {fs gs : List (Option YamlFault)}
    (hfs : ∀ f ∈ fs, P f) (hgs : ∀ g ∈ gs, P g) : ∀ f ∈ mergeRounds fs gs, P f := by
  induction fs generalizing gs with
  | nil =>
    rw [mergeRounds]
    exact hgs
  | cons f fs ih =>
    cases gs with
    | nil =>
      rw [mergeRounds]
      exact hfs
      nofun
    | cons g gs =>
      rw [List.forall_mem_cons] at hfs hgs
      rw [mergeRounds, List.forall_mem_cons]
      refine ⟨?_, ih hfs.2 hgs.2⟩
      -- A fault of the first part hides one of the second, and where the first has none the second
      -- counts.
      cases f with
      | none => exact hgs.1
      | some f => exact hfs.1

lemma forall_mem_ofParts {P : Option YamlFault → Prop} {value : Raw}
    {parts : List (List (Option YamlFault))} (hnone : P none)
    (h : ∀ fs ∈ parts, ∀ f ∈ fs, P f) : ∀ f ∈ (Built.ofParts value parts).rounds, P f := by
  have hmerged : ∀ f ∈ parts.foldr mergeRounds [], P f := by
    induction parts with
    | nil => nofun
    | cons fs parts ih =>
      rw [List.forall_mem_cons] at h
      exact forall_mem_mergeRounds h.1 (ih h.2)
  exact List.forall_mem_cons.mpr ⟨hnone, hmerged⟩

namespace Node

/-- A node is made into a value without faults, and has its structure. -/
structure Denotes (n : Node) (raw : Raw) : Prop where
  value : n.made.built.value = raw
  sound : ∀ f ∈ n.made.built.rounds, f = none
  agrees : n.agrees raw = true

variable {n : Node} {raw : Raw}

lemma Denotes.toRaw (h : n.Denotes raw) : n.toRaw = .ok raw := by
  have hnone : n.made.built.rounds.findSome? id = none :=
    List.findSome?_eq_none_iff.mpr h.sound
  rw [Node.toRaw, Built.result, hnone, h.value]

/-- A scalar denotes what its text stands for. -/
lemma denotes_scalar {tag : Tag} {text : String} (h : ScalarValue.ofText tag text = .ok raw)
    (hraw : raw.isScalar = true) (start : Mark) : Denotes (.scalar tag text start) raw := by
  have hmade : (made (.scalar tag text start)).built = .sound raw := by
    cases tag with
    | seq | map | set | omap | pairs => cases h
    | _ => simp only [made, Made.ofScalar, h, Built.ofExcept]
  refine ⟨by rw [hmade]; rfl, ?_, hraw⟩
  rw [hmade]
  nofun

lemma madeItems_eq (ns : List Node) : madeItems ns = ns.map made := by
  induction ns with
  | nil => rfl
  | cons n ns ih => rw [madeItems, ih]; rfl

lemma madeEntries_eq (es : List (Node × Node)) :
    madeEntries es = es.map fun e => (e.1.made, e.2.made) := by
  induction es with
  | nil => rfl
  | cons e es ih => rw [madeEntries, ih]; rfl

lemma built_sequence (ns : List Node) (start : Mark) :
    (made (.sequence .seq ns start)).built = .ofItems (ns.map fun n => n.made.built) := by
  rw [made, madeItems_eq]
  exact congrArg Built.ofItems (List.map_map ..)

/-- A sequence denotes the list of what its items denote. -/
lemma denotes_sequence {ns : List Node} {raws : List Raw} (h : List.Forall₂ Denotes ns raws)
    (start : Mark) : Denotes (.sequence .seq ns start) (.list raws) := by
  have hvalues : (ns.map fun n => n.made.built).map (·.value) = raws := by
    rw [List.map_map, ← List.forall₂_eq_eq_eq, List.forall₂_map_left_iff]
    exact h.imp fun _ _ hn => hn.value
  refine ⟨?_, ?_, allAgree_iff.mpr (h.imp fun _ _ hn => hn.agrees)⟩
  · rw [built_sequence]
    exact congrArg Raw.list hvalues
  · rw [built_sequence]
    refine forall_mem_ofParts rfl fun fs hfs => ?_
    obtain ⟨b, hb, rfl⟩ := List.mem_map.mp hfs
    obtain ⟨n, hn, rfl⟩ := List.mem_map.mp hb
    obtain ⟨raw, -, hdenotes⟩ := exists_of_forall₂_of_mem_left h hn
    exact hdenotes.sound

/-- An entry denotes the entry of a mapping from texts. -/
def EntryDenotes (e : Node × Node) (f : Raw × Raw) : Prop :=
  ∃ text start, e.1 = .scalar .str text start ∧ f.1 = .str text ∧ e.2.Denotes f.2

/-- Keys that are texts merge nothing, and are made into themselves. -/
lemma allEntries_eq {entries : List (Node × Node)}
    (h : ∀ e ∈ entries, ∃ text start, e.1 = .scalar .str text start) :
    Made.allEntries (madeEntries entries)
      = some (entries.map fun e => (.sound (.str e.1.segment), e.2.made.built)) := by
  have hmerged : Made.mergedEntries (madeEntries entries) = some [] := by
    induction entries with
    | nil => rfl
    | cons e entries ih =>
      rw [List.forall_mem_cons] at h
      obtain ⟨⟨text, start, hkey⟩, hothers⟩ := h
      have htag : e.1.made.tag ≠ Tag.merge := by
        rw [hkey]
        exact nofun
      rw [madeEntries, Made.mergedEntries, if_neg htag, ih hothers]
  have hown : Made.ownEntries (madeEntries entries)
      = entries.map fun e => (.sound (.str e.1.segment), e.2.made.built) := by
    rw [Made.ownEntries, madeEntries_eq, List.filter_eq_self.mpr, List.map_map]
    · refine List.map_congr_left fun e he => ?_
      obtain ⟨text, start, hkey⟩ := h e he
      rw [Function.comp_apply, hkey]
      rfl
    · intro m hm
      obtain ⟨e, he, rfl⟩ := List.mem_map.mp hm
      obtain ⟨text, start, hkey⟩ := h e he
      rw [hkey]
      rfl
  rw [Made.allEntries, hmerged, hown]
  rfl

lemma built_mapping {entries : List (Node × Node)}
    (h : ∀ e ∈ entries, ∃ text start, e.1 = .scalar .str text start) (start : Mark) :
    (made (.mapping .map entries start)).built
      = .ofEntries (entries.map fun e => (.sound (.str e.1.segment), e.2.made.built)) := by
  rw [made, Made.ofMapping, allEntries_eq h]
  rfl

/-- A mapping denotes the mapping of what its entries denote, if the keys are distinct. -/
lemma denotes_mapping {entries : List (Node × Node)} {es : Entries}
    (h : List.Forall₂ EntryDenotes entries es) (hkeyed : (Raw.dict es).isTextKeyed = true)
    (start : Mark) : Denotes (.mapping .map entries start) (.dict es) := by
  have htexts : ∀ e ∈ entries, ∃ text start, e.1 = .scalar .str text start := by
    intro e he
    obtain ⟨_, _, text, start, hkey, _⟩ := exists_of_forall₂_of_mem_left h he
    exact ⟨text, start, hkey⟩
  have hvalues : (entries.map fun e => (Built.sound (.str e.1.segment), e.2.made.built)).map
      (fun b => (b.1.value, b.2.value)) = es := by
    rw [List.map_map, ← List.forall₂_eq_eq_eq, List.forall₂_map_left_iff]
    refine h.imp fun e f hentry => ?_
    obtain ⟨text, start, hkey, hname, hvalue⟩ := hentry
    rw [Function.comp_apply, hkey]
    exact Prod.ext hname.symm hvalue.value
  refine ⟨?_, ?_, ?_⟩
  · rw [built_mapping htexts]
    change Raw.dict (Entries.ofList _) = _
    rw [hvalues, Entries.ofList_of_isTextKeyed hkeyed]
  · rw [built_mapping htexts]
    refine forall_mem_ofParts rfl fun fs hfs => ?_
    obtain ⟨b, hb, hrounds⟩ := List.mem_flatMap.mp hfs
    obtain ⟨e, he, rfl⟩ := List.mem_map.mp hb
    obtain ⟨_, _, _, _, _, _, hvalue⟩ := exists_of_forall₂_of_mem_left h he
    simp only [Built.entryRounds, List.mem_cons, List.not_mem_nil, or_false] at hrounds
    rcases hrounds with rfl | rfl | rfl
    · intro e he
      cases he
    · intro e he
      cases he
    · exact hvalue.sound
  · refine entriesAgree_iff.mpr (h.imp fun e f hentry => ?_)
    obtain ⟨text, start, hkey, hname, hvalue⟩ := hentry
    exact ⟨_, text, start, hkey, hname, hvalue.agrees⟩

end Node

end Yaml

end ApiLint
