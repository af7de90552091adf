import ApiLint.Proofs.Yaml.Faults
import ApiLint.Proofs.Yaml.Values

/-!
# Nodes without a value

If a node cannot be made into a value, then the text is no YAML, or a part of the node is faulty: a
scalar, or a mapping taken as one, whose text does not stand for anything under its tag. The tags
under which that happens are those of booleans, of numbers and of timestamps.
-/

namespace ApiLint

namespace Yaml

/-! ### Scalars -/

/-- How a text can fail to stand for anything under a tag, if it is not for being no YAML. -/
inductive Tag.Refuses : Tag → YamlFault → Prop
  | boolean (word : String) : Refuses .bool (.boolean word)
  | emptyNumber {tag : Tag} (htag : tag = .int ∨ tag = .float) : Refuses tag .emptyNumber
  | number {tag : Tag} (htag : tag = .int ∨ tag = .float) (error : NumberError) :
      Refuses tag (.number error)
  | timestamp : Refuses .timestamp .timestamp
  | calendar (error : CalendarError) : Refuses .timestamp (.calendar error)

namespace ScalarValue

section Numbers

variable {tag : Tag} (htag : tag = .int ∨ tag = .float)
include htag

lemma onlyFails_unsigned (cs : List Char) : OnlyFails tag.Refuses (unsigned cs) := by
  rw [unsigned]
  split
  · exact .error (.emptyNumber htag)
  · exact .ok _

lemma onlyFails_integerIn (base : Nat) (cs : List Char) :
    OnlyFails tag.Refuses (integerIn base cs) := .mapError fun _ _ => .number htag _

lemma onlyFails_decimal (cs : List Char) : OnlyFails tag.Refuses (decimal cs) :=
  .mapError fun _ _ => .number htag _

lemma onlyFails_sexagesimal (digits : List Binary64) (total : Binary64) (base : Int) :
    OnlyFails tag.Refuses (sexagesimal digits total base) := by
  induction digits generalizing total base with
  | nil => exact .ok _
  | cons digit digits ih =>
    rw [sexagesimal]
    split
    · exact ih _ _
    · exact .error (.number htag _)

lemma onlyFails_magnitude (cs : List Char) : OnlyFails tag.Refuses (magnitude cs) := by
  unfold magnitude
  split
  · exact .error (.emptyNumber htag)
  · exact .ok _
  · exact onlyFails_integerIn htag _ _
  · exact onlyFails_integerIn htag _ _
  · exact onlyFails_integerIn htag _ _
  · exact .ite ((OnlyFails.mapM (onlyFails_integerIn htag 10) _).bind fun _ _ => .ok _)
      (onlyFails_integerIn htag _ _)

lemma onlyFails_floatMagnitude (cs : List Char) : OnlyFails tag.Refuses (floatMagnitude cs) := by
  rw [floatMagnitude]
  exact .ite (.ok _) <| .ite (.ok _) <| .ite
    ((OnlyFails.mapM (onlyFails_decimal htag) _).bind fun _ _ => onlyFails_sexagesimal htag _ _ _)
    (onlyFails_decimal htag _)

end Numbers

lemma onlyFails_timestamp (text : String) :
    OnlyFails (Tag.Refuses .timestamp) (timestamp text) := by
  rw [timestamp]
  split
  · exact .error .timestamp
  · refine .ite (.map (.mapError fun _ _ => .calendar _)) ?_
    split
    · exact .error .timestamp
    · split
      · exact .bind (.mapError fun _ _ => .calendar _) fun _ _ =>
          .bind (.mapError fun _ _ => .calendar _) fun _ _ => .ok _
      · exact .bind (.mapError fun _ _ => .calendar _) fun _ _ => .ok _

/-- A text that stands for nothing under a tag is refused by the tag, or it is no YAML. -/
lemma onlyFails_ofText (tag : Tag) (text : String) :
    OnlyFails (fun fault => fault = .invalid ∨ tag.Refuses fault) (ofText tag text) := by
  intro fault h
  cases tag with
  | null | str => cases h
  | bool =>
    rw [ofText, boolean] at h
    split at h <;> cases h
    exact .inr (.boolean _)
  | int =>
    refine .inr (OnlyFails.bind (onlyFails_unsigned (.inl rfl) _) (fun _ _ => ?_) fault h)
    exact (onlyFails_magnitude (.inl rfl) _).bind fun _ _ => .ok _
  | float =>
    refine .inr (OnlyFails.bind (onlyFails_unsigned (.inr rfl) _) (fun _ _ => ?_) fault h)
    exact (onlyFails_floatMagnitude (.inr rfl) _).bind fun _ _ => .ok _
  | binary =>
    rw [ofText, binary] at h
    split at h
    · split at h <;> cases h
      exact .inl rfl
    · cases h
      exact .inl rfl
  | timestamp => exact .inr (onlyFails_timestamp text fault h)
  | _ =>
    cases h
    exact .inl rfl

end ScalarValue

/-! ### Rounds -/

/-- Rounds whose faults have a property. -/
def Only (P : YamlFault → Prop) (rounds : List (Option YamlFault)) : Prop :=
  ∀ f ∈ rounds, ∀ fault, f = some fault → P fault

section Rounds

variable {P Q : YamlFault → Prop}

lemma Only.mono {rounds : List (Option YamlFault)} (h : Only P rounds)
    (hPQ : ∀ fault, P fault → Q fault) : Only Q rounds :=
  fun f hf fault hfault => hPQ fault (h f hf fault hfault)

lemma only_nil : Only P [] := nofun

lemma only_failed {fault : YamlFault} (h : P fault) : Only P (Built.failed fault).rounds :=
  List.forall_mem_singleton.mpr fun _ heq => Option.some.inj heq ▸ h

lemma only_hollow (h : P .invalid) : Only P Built.hollow.rounds :=
  List.forall_mem_cons.mpr ⟨nofun, only_failed h⟩

lemma only_ofExcept {x : Except YamlFault Raw} (h : OnlyFails P x) :
    Only P (Built.ofExcept x).rounds := by
  cases x with
  | ok value => exact only_nil
  | error fault => exact only_failed (h fault rfl)

/-- A collection is made with the faults of its parts. -/
lemma only_ofParts {value : Raw} {parts : List (List (Option YamlFault))}
    (h : ∀ fs ∈ parts, Only P fs) : Only P (Built.ofParts value parts).rounds :=
  forall_mem_ofParts nofun h

/-- Entries whose keys and values have certain faults only. -/
def OnlyIn (P : YamlFault → Prop) (es : List (Built × Built)) : Prop :=
  ∀ e ∈ es, Only P e.1.rounds ∧ Only P e.2.rounds

lemma OnlyIn.entryRounds {es : List (Built × Built)} (h : OnlyIn P es) (hinvalid : P .invalid) :
    ∀ fs ∈ es.flatMap Built.entryRounds, Only P fs := by
  intro fs hfs
  obtain ⟨e, he, hfs⟩ := List.mem_flatMap.mp hfs
  rw [Built.entryRounds, List.mem_cons, List.mem_cons, List.mem_singleton] at hfs
  rcases hfs with rfl | rfl | rfl
  · exact (h e he).1
  · split
    · exact only_nil
    · exact only_failed hinvalid
  · exact (h e he).2

end Rounds

/-! ### What is made of faulty parts -/

/-- A node that is known with certain faults only: those of making it, and those of the entries that
it has or adds. -/
structure Made.Only (P : YamlFault → Prop) (m : Made) : Prop where
  built : Yaml.Only P m.built.rounds
  entries : ∀ es, m.entries = some es → OnlyIn P es
  source : ∀ es, m.source = some es → OnlyIn P es

namespace Made.Only

variable {P : YamlFault → Prop}

lemma ofScalar {tag : Tag} {text : String} (hinvalid : P .invalid)
    (htext : OnlyFails P (ScalarValue.ofText tag text)) : Made.Only P (.ofScalar tag text) where
  built := by
    cases tag with
    | seq | map | set | omap | pairs => exact only_hollow hinvalid
    | _ => exact only_ofExcept htext
  entries := nofun
  source := nofun

lemma source_items {ms : List Made} (h : ∀ m ∈ ms, Made.Only P m) {es : List (Built × Built)}
    (hes : sourceOfItems ms = some es) : OnlyIn P es := by
  induction ms generalizing es with
  | nil =>
    cases hes
    nofun
  | cons m ms ih =>
    rw [List.forall_mem_cons] at h
    rw [sourceOfItems] at hes
    split at hes
    · simp only [Option.bind_eq_bind, Option.bind_eq_some_iff, Option.pure_def,
        Option.some.injEq] at hes
      obtain ⟨others, hothers, own, hown, rfl⟩ := hes
      exact List.forall_mem_append.mpr ⟨ih h.2 hothers, h.1.source own hown⟩
    · cases hes

lemma pairOf {m : Made} (h : Made.Only P m) (hinvalid : P .invalid) :
    ∀ fs ∈ m.pairOf.2, Yaml.Only P fs := by
  rw [Made.pairOf]
  split
  · next heq =>
    obtain ⟨hkey, hvalue⟩ := h.entries _ heq _ (List.mem_singleton_self _)
    exact List.forall_mem_cons.mpr ⟨hkey, List.forall_mem_singleton.mpr hvalue⟩
  · exact List.forall_mem_singleton.mpr (only_failed hinvalid)

lemma ofSequence {tag : Tag} {ms : List Made} (hinvalid : P .invalid)
    (h : ∀ m ∈ ms, Made.Only P m) : Made.Only P (.ofSequence tag ms) where
  built := by
    have hpairs : Yaml.Only P (Built.ofParts (.list (ms.map fun m => m.pairOf.1))
        (ms.flatMap fun m => m.pairOf.2)).rounds := by
      refine only_ofParts fun fs hfs => ?_
      obtain ⟨m, hm, hfs⟩ := List.mem_flatMap.mp hfs
      exact (h m hm).pairOf hinvalid fs hfs
    cases tag with
    | seq =>
      refine only_ofParts fun fs hfs => ?_
      simp only [List.map_map, List.mem_map] at hfs
      obtain ⟨m, hm, rfl⟩ := hfs
      exact (h m hm).built
    | omap | pairs => exact hpairs
    | map | set => exact only_hollow hinvalid
    | _ => exact only_failed hinvalid
  entries := nofun
  source es hes := source_items h hes

lemma source_entries {ms : List (Made × Made)} (hinvalid : P .invalid)
    (h : ∀ m ∈ ms, Made.Only P m.1 ∧ Made.Only P m.2) {es : List (Built × Built)}
    (hes : allEntries ms = some es) : OnlyIn P es := by
  -- First come the entries that other mappings give under merge keys, then the own entries.
  obtain ⟨merged, hmerged, rfl⟩ := Option.map_eq_some_iff.mp hes
  refine List.forall_mem_append.mpr ⟨?_, ?_⟩
  · clear hes
    induction ms generalizing merged with
    | nil =>
      cases hmerged
      nofun
    | cons m ms ih =>
      rw [List.forall_mem_cons] at h
      rw [mergedEntries] at hmerged
      split at hmerged
      · simp only [Option.bind_eq_bind, Option.bind_eq_some_iff, Option.pure_def,
          Option.some.injEq] at hmerged
        obtain ⟨own, hown, others, hothers, rfl⟩ := hmerged
        exact List.forall_mem_append.mpr ⟨h.1.2.source own hown, ih h.2 others hothers⟩
      · exact ih h.2 merged hmerged
  · intro e he
    obtain ⟨m, hm, rfl⟩ := List.mem_map.mp he
    obtain ⟨hkey, hvalue⟩ := h m (List.mem_of_mem_filter hm)
    refine ⟨?_, hvalue.built⟩
    rw [asKey]
    split
    · split
      · exact only_nil
      · exact only_failed hinvalid
    · exact hkey.built

lemma ofMapping {tag : Tag} {ms : List (Made × Made)} (hinvalid : P .invalid)
    (h : ∀ m ∈ ms, Made.Only P m.1 ∧ Made.Only P m.2)
    (htext : ∀ text, (Made.ofMapping tag ms).text = some text →
      Yaml.Only P (defaultBuilt tag text).rounds) : Made.Only P (.ofMapping tag ms) where
  built := by
    have hentries : ∀ f : List (Built × Built) → Built,
        (∀ es, OnlyIn P es → Yaml.Only P (f es).rounds) →
        Yaml.Only P (((allEntries ms).map f).getD .hollow).rounds := by
      intro f hf
      cases hall : allEntries ms with
      | none => exact only_hollow hinvalid
      | some es => exact hf es (source_entries hinvalid h hall)
    have hdefault : Yaml.Only P
        (((Made.ofMapping tag ms).text.map (defaultBuilt tag)).getD (.failed .invalid)).rounds := by
      cases hfound : (Made.ofMapping tag ms).text with
      | none => exact only_failed hinvalid
      | some text => exact htext text hfound
    cases tag with
    | map => exact hentries _ fun es hes => only_ofParts (hes.entryRounds hinvalid)
    | set => exact hentries _ fun es hes => only_ofParts (hes.entryRounds hinvalid)
    | seq | omap | pairs => exact only_hollow hinvalid
    | _ => exact hdefault
  entries es hes := by
    cases hes
    intro e he
    obtain ⟨m, hm, rfl⟩ := List.mem_map.mp he
    exact ⟨(h m hm).1.built, (h m hm).2.built⟩
  source es hes := source_entries hinvalid h hes

end Made.Only

/-! ### Faulty parts -/

namespace Node

/-- The parts of a node, itself and keys included. -/
inductive Part : Node → Node → Prop
  | self (n : Node) : Part n n
  | item {tag : Tag} {items : List Node} {start : Mark} {n m : Node} (hn : n ∈ items)
      (hm : Part n m) : Part (.sequence tag items start) m
  | key {tag : Tag} {entries : List (Node × Node)} {start : Mark} {e : Node × Node} {m : Node}
      (he : e ∈ entries) (hm : Part e.1 m) : Part (.mapping tag entries start) m
  | value {tag : Tag} {entries : List (Node × Node)} {start : Mark} {e : Node × Node} {m : Node}
      (he : e ∈ entries) (hm : Part e.2 m) : Part (.mapping tag entries start) m

/-- A node with a text that its tag refuses: a scalar, or a mapping with a default value. A mapping
is never a timestamp, whatever its default value is. -/
inductive IsFaulty : Node → YamlFault → Prop
  | scalar {tag : Tag} {text : String} {start : Mark} {fault : YamlFault}
      (htext : ScalarValue.ofText tag text = .error fault) (hrefuses : tag.Refuses fault) :
      IsFaulty (.scalar tag text start) fault
  | mapping {tag : Tag} {entries : List (Node × Node)} {start : Mark} {text : String}
      {fault : YamlFault} (hdefault : (made (.mapping tag entries start)).text = some text)
      (htext : ScalarValue.ofText tag text = .error fault) (hrefuses : tag.Refuses fault) :
      IsFaulty (.mapping tag entries start) fault
  | timestamp {entries : List (Node × Node)} {start : Mark} {text : String}
      (hdefault : (made (.mapping .timestamp entries start)).text = some text) :
      IsFaulty (.mapping .timestamp entries start) .timestampOfCollection

/-- The faults that a node can have: that of texts that are no YAML, and those of its faulty
parts. -/
def Blames (n : Node) (fault : YamlFault) : Prop :=
  fault = .invalid ∨ ∃ m, n.Part m ∧ m.IsFaulty fault

lemma Blames.mono {n m : Node} {fault : YamlFault} (h : m.Blames fault)
    (hparts : ∀ part, m.Part part → n.Part part) : n.Blames fault :=
  h.imp_right fun ⟨part, hpart, hfaulty⟩ => ⟨part, hparts part hpart, hfaulty⟩

end Node

lemma Made.Only.mono {P Q : YamlFault → Prop} {m : Made} (h : m.Only P)
    (hPQ : ∀ fault, P fault → Q fault) : m.Only Q where
  built := h.built.mono hPQ
  entries es hes e he := (h.entries es hes e he).imp (·.mono hPQ) (·.mono hPQ)
  source es hes e he := (h.source es hes e he).imp (·.mono hPQ) (·.mono hPQ)

namespace Node

/-- Whatever is wrong with a node, one of its parts is to blame. -/
lemma only_made : ∀ n : Node, n.made.Only n.Blames
  | .scalar tag text start => by
    refine .ofScalar (.inl rfl) fun fault hfault => ?_
    refine (ScalarValue.onlyFails_ofText tag text fault hfault).imp_right fun hrefuses => ?_
    exact ⟨_, .self _, .scalar hfault hrefuses⟩
  | .sequence tag items start => by
    rw [made, madeItems_eq]
    refine .ofSequence (.inl rfl) (List.forall_mem_map.mpr fun n hn => ?_)
    have := List.sizeOf_lt_of_mem hn
    exact (only_made n).mono fun _ hfault => hfault.mono fun _ => .item hn
  | .mapping tag entries start => by
    have hmade : made (.mapping tag entries start) = .ofMapping tag (madeEntries entries) := by
      rw [made]
    rw [hmade]
    -- The mapping is to blame itself only where it stands for a scalar, by the default value in it.
    refine .ofMapping (.inl rfl) ?_ fun text htext => ?_
    · rw [madeEntries_eq]
      refine List.forall_mem_map.mpr fun e he => ?_
      obtain ⟨key, value⟩ := e
      have hsize : 1 + sizeOf key + sizeOf value < sizeOf entries := by
        simpa using List.sizeOf_lt_of_mem he
      exact ⟨(only_made key).mono fun _ hfault => hfault.mono fun _ => .key he,
        (only_made value).mono fun _ hfault => hfault.mono fun _ => .value he⟩
    · rw [← hmade] at htext
      have hvalue : Only (mapping tag entries start).Blames
          (Built.ofExcept (ScalarValue.ofText tag text)).rounds := only_ofExcept fun fault hfault =>
        (ScalarValue.onlyFails_ofText tag text fault hfault).imp_right fun hrefuses =>
          ⟨_, .self _, .mapping htext hfault hrefuses⟩
      cases tag with
      | timestamp => exact only_failed (.inr ⟨_, .self _, .timestamp htext⟩)
      | _ => exact hvalue
termination_by n => sizeOf n

/-- If a node has no value, then one of its parts is to blame, or the text is no YAML. -/
lemma blames_of_toRaw {n : Node} {fault : YamlFault} (h : n.toRaw = .error fault) :
    n.Blames fault := by
  rw [toRaw, Built.result] at h
  split at h
  · next f hsome =>
    cases h
    obtain ⟨round, hround, hf⟩ := List.exists_of_findSome?_eq_some hsome
    exact (only_made n).built round hround fault hf
  · cases h

end Node

end Yaml

end ApiLint
