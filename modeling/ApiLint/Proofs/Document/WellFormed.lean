import ApiLint.Proofs.Document.Sound
import ApiLint.Proofs.Walk.Inline

/-!
# The nodes of a graph that renders a document

Every place in such a graph belongs to a component or to a schema in line of one: it renders a
schema in line of the shape of the component. So every child is a schema.
-/

namespace ApiLint

namespace Components

open Walk

variable {cs : Components} {g : Graph}

/-- Every node of a graph that renders a document renders a schema in line of the shape of a
component. -/
lemma RenderedBy.exists_renders (h : cs.RenderedBy g) (hnames : "" ∉ cs.names) {place : Nat}
    {node : Node} (hnode : g.nodes[place]? = some node) :
    ∃ e ∈ cs.entries, ∃ (target : String) (shape : Entries),
      cs.aliasTarget e.1.text e.2 = .ok (target, .dict shape)
      ∧ ∃ s ∈ shape.inlineSchemas, ∃ lo hi, cs.Renders g lo hi s.entries node := by
  obtain ⟨hlt, _⟩ := Array.getElem?_eq_some_iff.mp hnode
  -- The first nodes are those of the components, one each; the nodes after them come from walking
  -- the shape of a component, which visits every place it has taken.
  by_cases hplace : place < cs.entries.length
  · obtain ⟨other, lo, hi, hother, target, shape, node', htarget, hnode', _, hrenders⟩ :=
      h.components.getElem? (List.getElem?_eq_getElem hplace)
    obtain ⟨_, rfl⟩ := List.getElem?_eq_some_iff.mp hother
    rw [List.getElem_range, hnode] at hnode'
    cases hnode'
    refine ⟨_, List.getElem_mem hplace, target, shape, htarget, ⟨[], [], shape⟩, ?_, lo, hi,
      hrenders⟩
    rw [Entries.inlineSchemas_eq]
    exact List.mem_cons_self ..
  · obtain ⟨e, he, other, _, lo, hi, hcomponent, hlo, hhi⟩ :=
      h.components.exists_of_le_of_lt (not_lt.mp hplace) hlt
    obtain ⟨target, shape, node', htarget, hnode', hreference, hrenders⟩ := hcomponent
    let walker : Walker := ⟨⟨[]⟩, Pointer.root, true⟩
    have htours : List.Forall₂ (cs.Meets g walker.base) _
        (listing walker g (g.keys.card + 1) [] walker.base (.node other)) ∧ _ :=
      tours_component h hnames rfl rfl hnode' hreference (List.mem_map_of_mem he) hrenders
        (Nat.lt_succ_self _)
    obtain ⟨hmeets, hplaces⟩ := htours
    have hmem : place ∈ other :: List.range' lo (hi - lo) := by
      refine List.mem_cons_of_mem _ (List.mem_range'_1.mpr ⟨hlo, ?_⟩)
      omega
    obtain ⟨visit, hvisit, rfl⟩ := List.mem_map.mp (hplaces.mem_iff.mpr hmem)
    obtain ⟨s, hs, hmeet⟩ := exists_of_forall₂_of_mem_right hmeets hvisit
    obtain ⟨lo', hi', hrenders'⟩ := hmeet.renders
    rw [hmeet.node] at hnode
    cases hnode
    exact ⟨e, he, target, shape, htarget, s, hs, lo', hi', hrenders'⟩

/-- A graph that renders a document is sound. -/
lemma RenderedBy.isSound (h : cs.RenderedBy g) (hnames : "" ∉ cs.names) : g.IsSound := by
  intro node hmem
  obtain ⟨place, hplace⟩ := Array.mem_iff_getElem?.mp hmem
  obtain ⟨_, _, _, _, _, s, _, lo, hi, hrenders⟩ := h.exists_renders hnames hplace
  constructor
  · intro e he
    obtain ⟨raw, hraw, lo', hi', _, hstands⟩ :=
      exists_of_forall₂_of_mem_right hrenders.children.forall₂ he
    have hkeyed := Entries.isTextKeyed_of_mem_outline hrenders.keyed hraw
    obtain ⟨other, found, _, _, _, hchild, hfound, _⟩ := h.governing hkeyed hstands
    rw [hchild]
    exact ⟨_, Graph.resolve_node hfound⟩
  · intro l hl
    obtain ⟨raw, _, _, hliteral⟩ := exists_of_forall₂_of_mem_right hrenders.declares.literals hl
    exact isValue_literalAt raw.2 hliteral

end Components

end ApiLint
