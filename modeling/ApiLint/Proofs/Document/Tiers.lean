import ApiLint.Proofs.Document.Sound
import ApiLint.Proofs.Graph.Described

/-!
# Components own what is in line in them

What is in line in a component is laid into one interval of places, and what is in line in a schema
in front of it. So the graph of a loaded document has two tiers, whatever the keys of the document:
the nodes of the components and, behind them, the schemas in line, each in one component. A walk
from a component comes back to components only, which have names. The empty name is no name, though.
-/

namespace ApiLint

namespace Chain

variable {α : Type} {R : Nat → Nat → α → Nat → Prop} {lo hi : Nat}

/-- The intervals of a chain are disjoint, and so all places in the interval of a pair can be told
whose they are. -/
lemma exists_owner {as : List α} {bs : List Nat} (h : Chain R lo hi as bs)
    (hR : ∀ lo hi a b, R lo hi a b → lo ≤ hi) :
    ∃ owner : Nat → Nat, Chain (fun lo hi a b => R lo hi a b
      ∧ ∀ place, lo ≤ place → place < hi → owner place = b) lo hi as bs := by
  induction h with
  | nil => exact ⟨id, .nil _⟩
  | @cons lo mid hi a b as bs head _ ih =>
    obtain ⟨owner, htail⟩ := ih
    refine ⟨fun place => if place < mid then b else owner place, .cons ⟨head, ?_⟩ ?_⟩
    · exact fun place _ hplace => if_pos hplace
    · refine (htail.within fun _ _ _ _ h => hR _ _ _ _ h.1).imp ?_
      rintro lo' hi' a' b' ⟨⟨hR', howner⟩, hmid, -⟩
      exact ⟨hR', fun place hlo hhi => (if_neg (by omega)).trans (howner place hlo hhi)⟩

end Chain

namespace Schema

variable {names : List String} {g : Graph} {lo hi place : Nat} {node : SchemaNode Schema}

lemma Laid.le {schema : Schema} {child : Child} (h : Laid names g lo hi schema child) :
    lo ≤ hi := by
  obtain ⟨nodes, rfl, rfl, -⟩ := h
  exact size_le_of_isPrefix (prefix_lay ..)

lemma LaidNode.le (h : LaidNode names g lo hi node place) : lo ≤ hi := by
  obtain ⟨nodes, rfl, rfl, -⟩ := h
  exact size_le_of_isPrefix (prefix_layNode ..)

/-- The children of a laid node, each laid in an interval within that of the node. -/
lemma LaidNode.children (h : LaidNode names g lo hi node place) :
    ∃ found, g.nodes[place]? = some found
      ∧ Chain (fun lo' hi' x y => SchemaNode.OnChildren (Laid names g lo' hi') x y
        ∧ lo ≤ lo' ∧ hi' ≤ hi) lo hi node.children found.children := by
  obtain ⟨nodes, rfl, rfl, hfound, hshows⟩ := h
  have hchain := (chain_layNode hshows).flatten
  rw [← SchemaNode.children_eq_flatten_parts, ← SchemaNode.children_eq_flatten_parts] at hchain
  exact ⟨_, hfound, hchain.within fun _ _ _ _ h => h.2.le⟩

/-- A laid node keeps its name and its type. -/
lemma LaidNode.kept (h : LaidNode names g lo hi node place) {found : Node}
    (hfound : g.nodes[place]? = some found) :
    found.reference = node.reference ∧ found.type = node.type := by
  obtain ⟨nodes, -, -, hfound', -⟩ := h
  rw [hfound] at hfound'
  cases hfound'
  cases node
  exact ⟨rfl, rfl⟩

/-- A sound schema in an interval with places is in line, and has the last of these. -/
lemma Laid.isInline {schema : Schema} {child : Child} (h : Laid names g lo hi schema child)
    (hsound : schema.IsSound names) (hlt : lo < hi) :
    ∃ inner, inner.reference = none ∧ inner.IsSound (IsSound names)
      ∧ LaidNode names g lo (hi - 1) inner (hi - 1) := by
  cases schema with
  | component name =>
    obtain ⟨-, rfl⟩ := laid_component h
    omega
  | inline inner =>
    obtain ⟨hreference, hinner⟩ := isSound_inline_iff.mp hsound
    exact ⟨inner, hreference, hinner, (laid_inline h).2.2⟩

/-- Every place in the interval of a sound node is that of a schema in line, which is sound, and
whose own interval is in front of it. -/
lemma LaidNode.exists_of_le_of_lt (h : LaidNode names g lo hi node place)
    (hsound : node.IsSound (IsSound names)) {other : Nat} (hlo : lo ≤ other) (hhi : other < hi) :
    ∃ inner lo', lo ≤ lo' ∧ inner.reference = none ∧ inner.IsSound (IsSound names)
      ∧ LaidNode names g lo' other inner other := by
  induction hi using Nat.strongRecOn generalizing lo place node with
  | _ hi ih =>
    obtain ⟨_, _, hchildren⟩ := h.children
    obtain ⟨e, he, _, _, lo', hi', ⟨⟨-, hlaid⟩, hlo', hhi'⟩, hother, hother'⟩ :=
      hchildren.exists_of_le_of_lt hlo hhi
    obtain ⟨inner, hreference, hinner, hlaid'⟩ :=
      hlaid.isInline (hsound.child e he) (by omega)
    -- The place is that of the child, or it is in front of it.
    rcases Nat.lt_or_ge other (hi' - 1) with hlt | hge
    · obtain ⟨found, lo'', hle, hfound⟩ := ih (hi' - 1) (by omega) hlaid' hinner hother hlt
      exact ⟨found, lo'', hlo'.trans hle, hfound⟩
    · obtain rfl : other = hi' - 1 := by omega
      exact ⟨inner, lo', hlo', hreference, hinner, hlaid'⟩

/-- The children of a sound node that are in line stand in its interval. -/
lemma LaidNode.le_of_mem_children (h : LaidNode names g lo hi node place)
    (hsound : node.IsSound (IsSound names)) {found : Node} (hfound : g.nodes[place]? = some found)
    {e : Edge × Child} (he : e ∈ found.children) {below : Nat} (hbelow : e.2 = .node below)
    (hinline : names.length ≤ below) : lo ≤ below ∧ below < hi := by
  obtain ⟨found', hfound', hchildren⟩ := h.children
  obtain rfl : found' = found := by simpa [hfound'] using hfound
  obtain ⟨⟨edge, schema⟩, hx, lo', hi', ⟨-, hlaid⟩, hlo, hhi⟩ :=
    exists_of_forall₂_of_mem_right hchildren.forall₂ he
  have hschema := hsound.child _ hx
  rw [hbelow] at hlaid
  cases hschema with
  | component hname =>
    obtain ⟨heq, -⟩ := laid_component hlaid
    cases heq
    exact absurd (List.idxOf_lt_length_of_mem hname) (not_lt.mpr hinline)
  | inline _ _ _ =>
    obtain ⟨hlt, heq, -⟩ := laid_inline hlaid
    cases heq
    omega

end Schema

namespace LoadedDocument

open Schema

variable {document : Raw} {d : LoadedDocument}

/-- A component carries its name, also if it is read into the node of one loaded before. -/
lemma reference_components (h : ofRaw document = .ok d) :
    ∀ c ∈ d.components, c.2.node.reference = some c.1 := by
  obtain ⟨cs, -, -, hload⟩ := ofRaw_eq_ok_iff.mp h
  exact Components.forall_mem_load (P := fun name node => node.reference = some name)
    (fun _ => rfl) (fun _ _ _ _ _ _ _ hbefore hnode =>
      (Components.reference_fill hnode).trans hbefore) (by simp) hload

/-- Whose the nodes behind the components are: every node in the interval of a component is owned by
the place of the component. -/
def OwnedBy (d : LoadedDocument) (owner : Nat → Nat) : Prop :=
  Chain (fun lo hi (c : String × Component) place => LaidNode d.names d.graph lo hi c.2.node place
    ∧ ∀ other, lo ≤ other → other < hi → owner other = place) d.components.length
    d.graph.nodes.size d.components (List.range d.components.length)

lemma exists_ownedBy (d : LoadedDocument) : ∃ owner, d.OwnedBy owner := by
  have hchain := chain_layComponents (g := d.graph) rfl (by simp)
  rw [Array.size_replicate, ← List.range_eq_range'] at hchain
  exact hchain.exists_owner fun _ _ _ _ h => h.le

variable {owner : Nat → Nat} {place : Nat}

/-- A place in the first tier is that of a component, which owns its interval. -/
lemma OwnedBy.component (h : d.OwnedBy owner) (hplace : place < d.components.length) :
    ∃ c ∈ d.components, ∃ lo hi, LaidNode d.names d.graph lo hi c.2.node place
      ∧ ∀ other, lo ≤ other → other < hi → owner other = place := by
  obtain ⟨place', lo, hi, hplace', howned⟩ := h.getElem? (List.getElem?_eq_getElem hplace)
  obtain ⟨_, rfl⟩ := List.getElem?_eq_some_iff.mp hplace'
  rw [List.getElem_range] at howned
  exact ⟨_, List.getElem_mem hplace, lo, hi, howned⟩

/-- A place in the second tier is that of a schema in line. What is in line in it has its owner. -/
lemma OwnedBy.inline (h : d.OwnedBy owner)
    (hsound : ∀ c ∈ d.components, c.2.node.IsSound (Schema.IsSound d.names))
    (hplace : d.components.length ≤ place) (hlt : place < d.graph.nodes.size) :
    ∃ inner lo, inner.reference = none ∧ inner.IsSound (Schema.IsSound d.names)
      ∧ LaidNode d.names d.graph lo place inner place
      ∧ ∀ other, lo ≤ other → other < place → owner other = owner place := by
  obtain ⟨c, hc, component, _, lo, hi, ⟨hlaid, howner⟩, hlo, hhi⟩ :=
    h.exists_of_le_of_lt hplace hlt
  obtain ⟨inner, lo', hle, hnone, hinner, hlaid'⟩ :=
    hlaid.exists_of_le_of_lt (hsound c hc) hlo hhi
  refine ⟨inner, lo', hnone, hinner, hlaid', fun other hother hother' => ?_⟩
  rw [howner other (hle.trans hother) (hother'.trans hhi), howner place hlo hhi]

/-- The graph of a loaded document has two tiers: a component owns what is in line in it. -/
theorem exists_isTiered (h : ofRaw document = .ok d) :
    ∃ owner, d.graph.IsTiered d.components.length owner := by
  have hlength : d.names.length = d.components.length := by simp [names, Fields.names]
  have hsound := isSound_components h
  obtain ⟨owner, howned⟩ := exists_ownedBy d
  refine ⟨owner, ⟨?_, ?_, ?_⟩⟩
  · intro place node hnode
    rcases Nat.lt_or_ge place d.components.length with hplace | hplace
    · obtain ⟨c, hc, _, _, hlaid, -⟩ := howned.component hplace
      simp [(hlaid.kept hnode).1, reference_components h c hc, hplace]
    · obtain ⟨hlt, _⟩ := Array.getElem?_eq_some_iff.mp hnode
      obtain ⟨_, _, hnone, -, hlaid, -⟩ := howned.inline hsound hplace hlt
      simp [(hlaid.kept hnode).1, hnone, hplace]
  · intro place node hnode hplace e he below hbelow hcount
    obtain ⟨c, hc, _, _, hlaid, howner⟩ := howned.component hplace
    obtain ⟨hlo, hhi⟩ :=
      hlaid.le_of_mem_children (hsound c hc) hnode he hbelow (hlength.trans_le hcount)
    exact howner below hlo hhi
  · intro place node hnode hplace e he below hbelow hcount
    obtain ⟨hlt, _⟩ := Array.getElem?_eq_some_iff.mp hnode
    obtain ⟨inner, _, -, hinner, hlaid, howner⟩ := howned.inline hsound hplace hlt
    obtain ⟨hlo, hhi⟩ :=
      hlaid.le_of_mem_children hinner hnode he hbelow (hlength.trans_le hcount)
    exact ⟨hhi, howner below hlo hhi⟩

/-- A node with a name is that of a component, with its type. -/
lemma exists_component_of_reference (h : ofRaw document = .ok d) {node : Node}
    (hnode : node ∈ d.graph.nodes) {name : String} (hname : node.reference = some name) :
    ∃ c ∈ d.components, node.type = c.2.node.type := by
  obtain ⟨owner, htiered⟩ := exists_isTiered h
  obtain ⟨_, howned⟩ := exists_ownedBy d
  obtain ⟨place, hplace⟩ := Array.mem_iff_getElem?.mp hnode
  have hlt : place < d.components.length :=
    not_le.mp fun hle => by simp [(htiered.reference hplace).mpr hle] at hname
  obtain ⟨c, hc, _, _, hlaid, -⟩ := howned.component hlt
  exact ⟨c, hc, (hlaid.kept hplace).2⟩

/-- A walk from a component can name whatever it comes back to, if it can name the component of the
empty name. -/
theorem namesRepeats_graph (h : ofRaw document = .ok d)
    (hempty : ∀ node ∈ d.graph.nodes, node.reference = some "" → node.type.isWritable = true)
    (hplace : place < d.components.length) : d.graph.NamesRepeats [] (.node place) := by
  obtain ⟨_, htiered⟩ := exists_isTiered h
  exact htiered.namesRepeats hempty hplace

end LoadedDocument

end ApiLint
