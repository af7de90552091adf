import ApiLint.Proofs.Document.Rendering
import ApiLint.Proofs.Pointer
import ApiLint.Proofs.Walk.Paths

/-!
# A walk that stops at references meets the schemas in line

On a graph that renders a document, a walk from a component that stops at references meets the
schemas in line of the shape of the component, one after the other, and nothing else. It comes to
every place in their interval once.
-/

namespace ApiLint

open Walk

namespace Components

variable (cs : Components) (g : Graph)

/-- A stop of a walk, with the path that leads to it, at a schema in line. -/
structure Meets (base : Pointer) (s : InlineSchema) (e : List Nat × Stop) : Prop where
  path : e.1 = s.path
  pointer : e.2.pointer = base.join s.segments
  node : g.nodes[e.2.place]? = some e.2.node
  renders : ∃ lo hi, cs.Renders g lo hi s.entries e.2.node

/-- Stops at schemas in line, one for each, whose places fill an interval. -/
structure Tours (base : Pointer) (lo hi : Nat) (schemas : List InlineSchema)
    (visits : List (List Nat × Stop)) : Prop where
  le : lo ≤ hi
  meets : List.Forall₂ (cs.Meets g base) schemas visits
  places : (visits.map fun e => e.2.place).Perm (List.range' lo (hi - lo))

variable {cs g}

namespace Tours

variable {base : Pointer} {lo mid hi : Nat} {schemas schemas' : List InlineSchema}
  {visits visits' : List (List Nat × Stop)}

lemma nil (n : Nat) : cs.Tours g base n n [] [] :=
  ⟨Nat.le_refl _, .nil, by simp⟩

lemma append (h : cs.Tours g base lo mid schemas visits)
    (h' : cs.Tours g base mid hi schemas' visits') :
    cs.Tours g base lo hi (schemas ++ schemas') (visits ++ visits') := by
  refine ⟨h.le.trans h'.le, List.rel_append h.meets h'.meets, ?_⟩
  rw [List.map_append, ← range'_append_range' h.le h'.le]
  exact h.places.append h'.places

/-- The tours below the children of a node make a tour. -/
lemma flatMap {α β : Type} {f : α → List InlineSchema} {f' : β → List (List Nat × Stop)}
    {as : List α} {bs : List β}
    (h : Chain (fun lo hi a b => cs.Tours g base lo hi (f a) (f' b)) lo hi as bs) :
    cs.Tours g base lo hi (as.flatMap f) (bs.flatMap f') := by
  induction h with
  | nil => exact nil _
  | cons head _ ih => exact head.append ih

/-- A tour as it is seen from the node above. -/
lemma below {edge : Edge} (h : cs.Tours g (base.join edge.segments) lo hi schemas visits)
    (i index : Nat) :
    cs.Tours g base lo hi (schemas.map (.below i (edge, index)))
      (visits.map fun found => (i :: found.1, found.2)) := by
  refine ⟨h.le, ?_, ?_⟩
  · rw [List.forall₂_map_left_iff, List.forall₂_map_right_iff]
    refine h.meets.imp fun s e hs => ⟨?_, ?_, hs.node, hs.renders⟩
    · rw [hs.path, InlineSchema.path_below]
    · rw [hs.pointer, Pointer.join_join, InlineSchema.segments_below]
  · rw [List.map_map]
    exact h.places

end Tours

variable {walker : Walker}

/-- No place from the given one on belongs to a key above. -/
def Passed (above : List NodeKey) (place : Nat) : Prop :=
  ∀ other, NodeKey.place other ∈ above → place ≤ other

/-- Below every node that renders a raw schema, a walk tours the schemas in line below this. -/
def ToursBelow (cs : Components) (g : Graph) (walker : Walker) (es : Entries) : Prop :=
  ∀ {lo hi depth : Nat} {above : List NodeKey} {base : Pointer} {node : Node},
    cs.Renders g lo hi es node → above ≠ [] → Passed above hi →
    (g.keys \ above.toFinset).card < depth →
    cs.Tours g base lo hi ((indexedChildren es.outline).zipIdx.flatMap Entries.inlineBelow)
      (node.children.zipIdx.flatMap fun e =>
        (listing walker g depth above (base.join e.1.1.segments) e.1.2).map
          fun found => (e.2 :: found.1, found.2))

/-- The stop at a node, put in front of a tour of what is below it. -/
lemma meets_self {lo hi place : Nat} {es : Entries} {node : Node} {base : Pointer}
    (hbase : base.isEmpty = false) (hnode : g.nodes[place]? = some node)
    (hrenders : cs.Renders g lo hi es node) :
    cs.Meets g base ⟨[], [], es⟩ ([], ⟨base, place, node⟩) :=
  ⟨rfl, (Pointer.join_nil hbase).symm, hnode, lo, hi, hrenders⟩

/-- A reference is the node of a component, and the walk stops in front of it. -/
lemma tours_reference (hcs : cs.RenderedBy g) (hnames : "" ∉ cs.names)
    (hstop : walker.stopAtReferences = true) {es : Entries} {reference : Raw}
    (hreference : es.field? "$ref" = some reference) {lo hi depth : Nat} {above : List NodeKey}
    {base : Pointer} {child : Child} (hstands : cs.Stands g lo hi (.dict es) child)
    (habove : above ≠ []) :
    cs.Tours g base lo hi [] (listing walker g depth above base child) := by
  obtain ⟨rfl, text, name, rfl, hname, hmem, rfl⟩ := stands_reference hreference hstands
  obtain ⟨_, _, _, _, _, _, node, _, hnode, hcarried, _⟩ := hcs.component hmem
  have hsome : node.name? = some name :=
    SchemaNode.name?_of_reference hcarried fun heq => hnames (heq ▸ hmem)
  have hcut : isCut walker above node = true := by
    simp [isCut, hstop, hsome, habove]
  have hat : Stop.at? g base _ = some _ := Stop.at?_of_resolve (Graph.resolve_node hnode)
  rw [listing_eq_nil (by simp [hat, hcut])]
  exact .nil lo

/-- A schema in line is met itself, and then a walk tours those below it. -/
lemma tours_inline {es : Entries} (hes : (Raw.dict es).isTextKeyed = true)
    (hreference : es.field? "$ref" = none) (hbelow : cs.ToursBelow g walker es)
    {lo hi depth : Nat} {above : List NodeKey} {base : Pointer} {child : Child}
    (hbase : base.isEmpty = false) (hstands : cs.Stands g lo hi (.dict es) child)
    (hpassed : Passed above hi) (hdepth : (g.keys \ above.toFinset).card < depth + 1) :
    cs.Tours g base lo hi es.inlineSchemas (listing walker g (depth + 1) above base child) := by
  obtain ⟨hlt, rfl, node, hnode, hnone, hrenders⟩ := stands_inline hes hreference hstands
  have hname : node.name? = none := by simp [SchemaNode.name?, hnone]
  have hcut : isCut walker above node = false := by simp [isCut, hname]
  let stop : Stop := ⟨base, hi - 1, node⟩
  have hat : Stop.at? g base (.node (hi - 1)) = some stop :=
    Stop.at?_of_resolve (Graph.resolve_node hnode)
  have hkey : stop.key = .place (hi - 1) := by simp [Stop.key, Graph.keyOf, stop, hname]
  -- The node is the last of its interval, and no place of the interval was passed before.
  have hnew : stop.key ∉ above := by
    intro hmem
    have := hpassed (hi - 1) (hkey ▸ hmem)
    omega
  have hpassed' : Passed (stop.key :: above) (hi - 1) := by
    intro other hother
    rw [hkey, List.mem_cons, NodeKey.place.injEq] at hother
    rcases hother with rfl | hother
    · exact Nat.le_refl _
    · exact Nat.le_trans (Nat.sub_le hi 1) (hpassed other hother)
  have htour : cs.Tours g base lo (hi - 1) _ _ :=
    hbelow hrenders (List.cons_ne_nil stop.key above) hpassed'
      (card_sdiff_cons_lt (key_mem_keys hat) hnew hdepth)
  rw [listing_eq_cons hat hnew hcut, Entries.inlineSchemas_eq]
  refine ⟨Nat.le_of_lt hlt, .cons (meets_self hbase hnode hrenders) htour.meets, ?_⟩
  have hlast : List.range' lo (hi - lo) = List.range' lo (hi - 1 - lo) ++ [hi - 1] := by
    rw [show hi - lo = hi - 1 - lo + 1 by omega, List.range'_concat]
    congr 2
    omega
  rw [hlast]
  exact (htour.places.cons (hi - 1)).trans (List.perm_append_singleton ..).symm

/-- A walk tours the schemas in line of a child, if it does so below. -/
lemma tours_child (hcs : cs.RenderedBy g) (hnames : "" ∉ cs.names)
    (hstop : walker.stopAtReferences = true) {raw : Raw} (hraw : raw.isTextKeyed = true)
    (hbelow : ∀ es, raw.inline? = some es → cs.ToursBelow g walker es) {lo hi depth : Nat}
    {above : List NodeKey} {base : Pointer} {child : Child} (hbase : base.isEmpty = false)
    (hstands : cs.Stands g lo hi raw child) (habove : above ≠ []) (hpassed : Passed above hi)
    (hdepth : (g.keys \ above.toFinset).card < depth) :
    cs.Tours g base lo hi ((raw.inline?.map Entries.inlineSchemas).getD [])
      (listing walker g depth above base child) := by
  obtain ⟨es, rfl⟩ := exists_dict_of_stands hstands
  cases hreference : Entries.field? es "$ref" with
  | some reference =>
    rw [show (Raw.dict es).inline? = none by simp [Raw.inline?, hreference]]
    exact tours_reference hcs hnames hstop hreference hstands habove
  | none =>
    obtain ⟨depth, rfl⟩ := Nat.exists_eq_add_one_of_ne_zero (by omega : depth ≠ 0)
    have hinline : (Raw.dict es).inline? = some es := Raw.inline?_eq_some_iff.mpr ⟨rfl, hreference⟩
    rw [hinline]
    exact tours_inline hraw hreference (hbelow es hinline) hbase hstands hpassed hdepth

/-- A walk that stops at references tours the schemas in line below every node that renders a raw
schema. -/
lemma toursBelow (hcs : cs.RenderedBy g) (hnames : "" ∉ cs.names)
    (hstop : walker.stopAtReferences = true) (es : Entries) : cs.ToursBelow g walker es := by
  -- The children take up the interval of a node one after the other, so their tours, which exist by
  -- induction on the raw schema, join to one.
  induction hsize : sizeOf es using Nat.strongRecOn generalizing es with
  | _ size ih =>
    intro lo hi depth above base node hrenders habove hpassed hdepth
    have hchain := hrenders.children.within fun _ _ _ _ h => le_of_stands h.2
    rw [← map_indexedChildren] at hchain
    refine Tours.flatMap ((hchain.of_map_left.zipIdx 0).imp_of_mem ?_)
    rintro lo' hi' ⟨⟨edge, index, raw⟩, i⟩ hmem ⟨⟨edge', child⟩, i'⟩ ⟨rfl, ⟨rfl, hstands⟩, _, hle⟩
    have hchild : (edge, index, raw) ∈ indexedChildren es.outline :=
      List.fst_mem_of_mem_zipIdx hmem
    have hraw : raw.isTextKeyed = true :=
      Entries.isTextKeyed_of_mem_outline hrenders.keyed
        (Entries.mem_outline_of_mem_indexedChildren hchild)
    have htour : cs.Tours g (base.join edge.segments) lo' hi' _ _ :=
      tours_child hcs hnames hstop hraw
        (fun below hbelow => ih _ (hsize ▸ Entries.sizeOf_lt_of_inline? hchild hbelow) below rfl)
        (Pointer.isEmpty_join ..) hstands habove
        (fun other h => Nat.le_trans hle (hpassed other h)) hdepth
    have hinline : Entries.inlineBelow ((edge, index, raw), i)
        = ((raw.inline?.map Entries.inlineSchemas).getD []).map (.below i (edge, index)) := by
      simp only [Entries.inlineBelow]
      cases raw.inline? <;> rfl
    rw [hinline]
    exact htour.below i index

/-- From the node of a component, a walk that stops at references meets the schemas in line of its
shape, and comes to the place of the component and to the places of its interval, each once. -/
lemma tours_component (hcs : cs.RenderedBy g) (hnames : "" ∉ cs.names)
    (hstop : walker.stopAtReferences = true) {lo hi place depth : Nat} {es : Entries} {node : Node}
    {name : String} {base : Pointer} (hbase : base.isEmpty = false)
    (hnode : g.nodes[place]? = some node) (hreference : node.reference = some name)
    (hname : name ∈ cs.names) (hrenders : cs.Renders g lo hi es node)
    (hdepth : g.keys.card < depth) :
    List.Forall₂ (cs.Meets g base) es.inlineSchemas (listing walker g depth [] base (.node place))
      ∧ ((listing walker g depth [] base (.node place)).map fun e => e.2.place).Perm
        (place :: List.range' lo (hi - lo)) := by
  obtain ⟨depth, rfl⟩ := Nat.exists_eq_add_one_of_ne_zero (by omega : depth ≠ 0)
  let stop : Stop := ⟨base, place, node⟩
  have hat : Stop.at? g base (.node place) = some stop :=
    Stop.at?_of_resolve (Graph.resolve_node hnode)
  have hkey : stop.key = .component name := by
    have hsome : node.name? = some name :=
      SchemaNode.name?_of_reference hreference fun heq => hnames (heq ▸ hname)
    simp [Stop.key, Graph.keyOf, stop, hsome]
  have hpassed : Passed [stop.key] hi := by simp [Passed, hkey]
  have htour : cs.Tours g base lo hi _ _ :=
    toursBelow hcs hnames hstop es hrenders (List.cons_ne_nil stop.key []) hpassed
      (card_sdiff_cons_lt (key_mem_keys hat) (List.not_mem_nil) (by simpa using hdepth))
  rw [listing_eq_cons hat (List.not_mem_nil) (by simp [isCut]), Entries.inlineSchemas_eq]
  exact ⟨.cons (meets_self hbase hnode hrenders) htour.meets, htour.places.cons place⟩

end Components

end ApiLint
