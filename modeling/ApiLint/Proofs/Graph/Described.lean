import ApiLint.Proofs.Graph.Trail

/-!
# Nodes that can be named

A walk that comes to a node on its path again names the node in its log, and the name may be one
that cannot be written: that of a node in line whose type is no text, but a number with too many
digits. In a described graph no node has such a name. In others it is enough that a walk never comes
back to one that has, which an invariant of paths may tell.
-/

namespace ApiLint

lemma Raw.isWritable_of_isVoid {r : Raw} (h : r.isVoid = true) : r.isWritable = true := by
  cases r with
  | int n =>
    rw [Raw.isVoid, beq_iff_eq] at h
    subst h
    decide +kernel
  | list xs => rw [List.isEmpty_iff.mp h]; rfl
  | set xs => rw [List.isEmpty_iff.mp h]; rfl
  | dict es => rw [List.isEmpty_iff.mp h]; rfl
  | pair k v => cases h
  | _ => rfl

namespace SchemaNode

variable {σ : Type} {node : SchemaNode σ}

/-- A node can be named unless it is in line and its type cannot be written. -/
lemma exists_describe_iff :
    (∃ name, node.describe = .ok name) ↔ node.name? = none → node.type.isWritable = true := by
  cases hname : node.name? with
  | some name => simp [describe, hname]
  | none =>
    cases hvoid : node.type.isVoid with
    | true => simp [describe, hname, hvoid, Except.map, Raw.isWritable_of_isVoid hvoid]
    | false =>
      cases hwritable : node.type.isWritable <;>
        simp [describe, hname, hvoid, Raw.writtenText, Raw.requireTexts, hwritable, Except.map]

/-- What keeps a node from being named is that a number in its type has too many digits. -/
lemma eq_tooLongToWrite_of_describe {e : NumberError} (h : node.describe = .error e) :
    e = .tooLongToWrite := by
  have hnone : ¬∃ name, node.describe = .ok name := by simp [h]
  rw [exists_describe_iff, Classical.not_imp] at hnone
  obtain ⟨hname, htype⟩ := hnone
  have hvoid : node.type.isVoid = false := by
    by_contra hvoid
    exact htype (Raw.isWritable_of_isVoid (by simpa using hvoid))
  simpa [describe, hname, hvoid, Raw.writtenText, Raw.requireTexts, htype, Except.map, eq_comm]
    using h

end SchemaNode

namespace Graph

/-- A graph whose nodes can all be named. -/
def IsDescribed (g : Graph) : Prop := ∀ node ∈ g.nodes, ∃ name, node.describe = .ok name

instance (g : Graph) : Decidable g.IsDescribed :=
  decidable_of_iff
    (∀ node ∈ g.nodes.toList, node.name? = none → node.type.isWritable = true) <| by
    simp only [IsDescribed, SchemaNode.exists_describe_iff, Array.mem_toList_iff]

/-- The type of a node is declared to be a text, or to be left out. Nodes of such types can all be
named. -/
lemma isDescribed_of_text_types {g : Graph}
    (h : ∀ node ∈ g.nodes, node.type = .null ∨ ∃ text, node.type = .str text) : g.IsDescribed := by
  intro node hnode
  rw [SchemaNode.exists_describe_iff]
  rintro -
  rcases h node hnode with htype | ⟨text, htype⟩ <;> rw [htype] <;> rfl

/-- What the keys above a child and the child have in common along the ways of a walk, and what is
enough to name a node whose key is above. -/
structure Describes (g : Graph) (I : List NodeKey → Child → Prop) : Prop where
  describe : ∀ {above child place node}, I above child → g.resolve child = .ok (place, node) →
    keyOf place node ∈ above → ∃ name, node.describe = .ok name
  below : ∀ {above child place node}, I above child → g.resolve child = .ok (place, node) →
    keyOf place node ∉ above → ∀ e ∈ node.children, I (keyOf place node :: above) e.2

/-- Whatever node a walk comes back to below a child can be named. -/
def NamesRepeats (g : Graph) (above : List NodeKey) (child : Child) : Prop :=
  ∃ I, g.Describes I ∧ I above child

variable {g : Graph} {above : List NodeKey} {child : Child} {place : Nat} {node : Node}

lemma NamesRepeats.describe (h : g.NamesRepeats above child)
    (hresolve : g.resolve child = .ok (place, node)) (hkey : keyOf place node ∈ above) :
    ∃ name, node.describe = .ok name := by
  obtain ⟨_, hI, hchild⟩ := h
  exact hI.describe hchild hresolve hkey

lemma NamesRepeats.below (h : g.NamesRepeats above child)
    (hresolve : g.resolve child = .ok (place, node)) (hkey : keyOf place node ∉ above)
    {e : Edge × Child} (he : e ∈ node.children) :
    g.NamesRepeats (keyOf place node :: above) e.2 := by
  obtain ⟨I, hI, hchild⟩ := h
  exact ⟨I, hI, hI.below hchild hresolve hkey e he⟩

/-! ### Graphs in two tiers -/

/-- A graph of named nodes, so many, and of nodes in line behind them. A node in line has one named
node that owns it. Its children in line stand in places before its own and have the same owner; the
children in line of a named node are its own. -/
structure IsTiered (g : Graph) (count : Nat) (owner : Nat → Nat) : Prop where
  reference : ∀ {place node}, g.nodes[place]? = some node → (node.reference = none ↔ count ≤ place)
  named : ∀ {place node}, g.nodes[place]? = some node → place < count →
    ∀ e ∈ node.children, ∀ below, e.2 = .node below → count ≤ below → owner below = place
  inline : ∀ {place node}, g.nodes[place]? = some node → count ≤ place →
    ∀ e ∈ node.children, ∀ below, e.2 = .node below → count ≤ below →
      below < place ∧ owner below = owner place

/-- The node at a place is among those above. -/
def HasAbove (g : Graph) (above : List NodeKey) (place : Nat) : Prop :=
  ∀ node, g.nodes[place]? = some node → keyOf place node ∈ above

/-- With a node in line its owner is above. A child in line stands in a place before those of all
nodes of its owner that are above, so that it is none of them. -/
structure IsBelow (g : Graph) (count : Nat) (owner : Nat → Nat) (above : List NodeKey)
    (child : Child) : Prop where
  owned : ∀ place, count ≤ place → .place place ∈ above → g.HasAbove above (owner place)
  ownerAbove : ∀ place, child = .node place → count ≤ place → g.HasAbove above (owner place)
  before : ∀ place, child = .node place → count ≤ place →
    ∀ other, count ≤ other → .place other ∈ above → owner other = owner place → place < other

namespace IsTiered

variable {count : Nat} {owner : Nat → Nat}

lemma keyOf_inline (h : g.IsTiered count owner) (hnode : g.nodes[place]? = some node)
    (hplace : count ≤ place) : keyOf place node = .place place := by
  simp [keyOf, SchemaNode.name?, (h.reference hnode).mpr hplace]

lemma place_ne_keyOf (hplace : place < count) {other : Nat} (hother : count ≤ other) :
    NodeKey.place other ≠ keyOf place node := by
  rw [keyOf]
  cases node.name? with
  | some name => exact nofun
  | none =>
    intro heq
    cases heq
    omega

/-- A node that a walk comes to again has a name, or it stands for the component of an empty name.
-/
lemma describe (h : g.IsTiered count owner)
    (hempty : ∀ node ∈ g.nodes, node.reference = some "" → node.type.isWritable = true)
    (hbelow : g.IsBelow count owner above child) (hresolve : g.resolve child = .ok (place, node))
    (hkey : keyOf place node ∈ above) : ∃ name, node.describe = .ok name := by
  obtain ⟨rfl, hnode⟩ := resolve_eq_ok_iff.mp hresolve
  by_cases hplace : count ≤ place
  · rw [h.keyOf_inline hnode hplace] at hkey
    exact absurd (hbelow.before place rfl hplace place hplace hkey rfl) (lt_irrefl _)
  · obtain ⟨name, hname⟩ := Option.ne_none_iff_exists'.mp (mt (h.reference hnode).mp hplace)
    rw [SchemaNode.exists_describe_iff]
    intro hnone
    obtain rfl : name = "" := by simpa [SchemaNode.name?, hname] using hnone
    exact hempty node (Array.mem_of_getElem? hnode) hname

/-- Whatever a walk comes to first is above what it comes to next. -/
lemma isBelow_child (h : g.IsTiered count owner) (hbelow : g.IsBelow count owner above child)
    (hresolve : g.resolve child = .ok (place, node)) (hkey : keyOf place node ∉ above)
    {e : Edge × Child} (he : e ∈ node.children) :
    g.IsBelow count owner (keyOf place node :: above) e.2 := by
  obtain ⟨rfl, hnode⟩ := resolve_eq_ok_iff.mp hresolve
  have hmono : ∀ {p}, g.HasAbove above p → g.HasAbove (keyOf place node :: above) p :=
    fun hp node hnode => List.mem_cons_of_mem _ (hp node hnode)
  by_cases hplace : count ≤ place
  · have hself := h.keyOf_inline hnode hplace
    refine ⟨?_, ?_, ?_⟩
    · intro other hother hmem
      rw [hself, List.mem_cons] at hmem
      obtain heq | hmem := hmem
      · cases heq
        exact hmono (hbelow.ownerAbove place rfl hplace)
      · exact hmono (hbelow.owned other hother hmem)
    · intro below hchild hinline
      rw [(h.inline hnode hplace e he below hchild hinline).2]
      exact hmono (hbelow.ownerAbove place rfl hplace)
    · intro below hchild hinline other hother hmem howner
      obtain ⟨hlt, hsame⟩ := h.inline hnode hplace e he below hchild hinline
      rw [hself, List.mem_cons] at hmem
      obtain heq | hmem := hmem
      · cases heq
        exact hlt
      · exact hlt.trans (hbelow.before place rfl hplace other hother hmem (howner.trans hsame))
  -- A named node is new here, and so are those that it owns.
  · have hnew : ∀ other, count ≤ other → .place other ∈ keyOf place node :: above →
        .place other ∈ above := fun other hother hmem =>
      (List.mem_cons.mp hmem).resolve_left (place_ne_keyOf (not_le.mp hplace) hother)
    refine ⟨?_, ?_, ?_⟩
    · exact fun other hother hmem => hmono (hbelow.owned other hother (hnew other hother hmem))
    · intro below hchild hinline found hfound
      rw [h.named hnode (not_le.mp hplace) e he below hchild hinline] at hfound ⊢
      rw [hnode] at hfound
      cases hfound
      exact List.mem_cons_self ..
    · intro below hchild hinline other hother hmem howner
      have hplaced := h.named hnode (not_le.mp hplace) e he below hchild hinline
      have habove := hbelow.owned other hother (hnew other hother hmem)
      rw [howner, hplaced] at habove
      exact absurd (habove node hnode) hkey

/-- A walk of such a graph from a named node can name whatever it comes back to, if it can name the
component of an empty name. -/
theorem namesRepeats (h : g.IsTiered count owner)
    (hempty : ∀ node ∈ g.nodes, node.reference = some "" → node.type.isWritable = true)
    (hplace : place < count) : g.NamesRepeats [] (.node place) := by
  refine ⟨g.IsBelow count owner, ⟨h.describe hempty, h.isBelow_child⟩, ⟨?_, ?_, ?_⟩⟩
  · exact fun _ _ hmem => absurd hmem List.not_mem_nil
  · rintro _ ⟨⟩ hinline
    omega
  · rintro _ ⟨⟩ hinline
    omega

end IsTiered

lemma IsDescribed.namesRepeats (h : g.IsDescribed) (above : List NodeKey) (child : Child) :
    g.NamesRepeats above child := by
  refine ⟨fun _ _ => True, ⟨?_, fun _ _ _ _ _ => trivial⟩, trivial⟩
  intro above child place node _ hresolve _
  exact h node (Array.mem_of_getElem? (resolve_eq_ok_iff.mp hresolve).2)

end Graph

end ApiLint
