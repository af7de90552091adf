import ApiLint.Proofs.Graph.Trail

/-!
# Reachable nodes

A place is reached from a root by any number of steps to children. If no two places that are reached
stand for the same component, then each of them is at the end of a trail on which no key stands
twice: where a trail comes back to a key, it comes back to the node, and what lies between can be
left out.
-/

namespace ApiLint

namespace Graph

/-- The places that are reached from a root. -/
inductive Reaches (g : Graph) (root : Nat) : Nat → Prop
  | root : Reaches g root root
  | step {place next : Nat} {node found : Node} {edge : Edge} {child : Child}
      (reached : Reaches g root place) (node_eq : g.nodes[place]? = some node)
      (child_mem : (edge, child) ∈ node.children) (resolve_eq : g.resolve child = .ok (next, found)) :
      Reaches g root next

/-- The name of the component that the node at a place stands for. -/
def nameAt? (g : Graph) (place : Nat) : Option String := g.nodes[place]?.bind SchemaNode.name?

/-- No two of the places that are reached from a root stand for the same component. -/
def NamesApart (g : Graph) (root : Nat) : Prop :=
  ∀ p q name, g.Reaches root p → g.Reaches root q →
    g.nameAt? p = some name → g.nameAt? q = some name → p = q

end Graph

namespace Walk

variable {g : Graph} {pointer : Pointer} {child : Child} {path : List Nat} {stops : List Stop}

/-- A trail goes on to a child of its last node. -/
lemma trail_concat {last stop : Stop} {i : Nat} {edge : Edge} {next : Child}
    (h : trail g pointer child path = some stops) (hlast : stops.getLast? = some last)
    (hnext : last.node.children[i]? = some (edge, next))
    (hstop : Stop.at? g (last.pointer.join edge.segments) next = some stop) :
    trail g pointer child (path ++ [i]) = some (stops ++ [stop]) := by
  induction path generalizing pointer child stops with
  | nil =>
    obtain ⟨first, hfirst, rfl⟩ := trail_nil_eq_some_iff.mp h
    simp only [List.getLast?_singleton, Option.some.injEq] at hlast
    subst hlast
    rw [(Stop.at?_eq_some_iff.mp hfirst).1] at hstop
    apply trail_cons_eq_some_iff.mpr
    exact ⟨_, edge, next, [stop], hfirst, hnext, trail_nil_eq_some_iff.mpr ⟨stop, hstop, rfl⟩, rfl⟩
  | cons j path ih =>
    obtain ⟨first, edge', next', rest, hfirst, hnext', hrest, rfl⟩ := trail_cons_eq_some_iff.mp h
    obtain ⟨second, more, _, rfl⟩ := exists_cons_of_trail hrest
    rw [List.getLast?_cons_cons] at hlast
    apply trail_cons_eq_some_iff.mpr
    exact ⟨first, edge', next', _, hfirst, hnext', ih hrest hlast, rfl⟩

/-- A trail can end at any stop on it. -/
lemma trail_take {before after : List Stop} {stop : Stop}
    (h : trail g pointer child path = some (before ++ stop :: after)) :
    trail g pointer child (path.take before.length) = some (before ++ [stop]) := by
  induction before generalizing pointer child path with
  | nil =>
    obtain ⟨first, rest, hfirst, heq⟩ := exists_cons_of_trail h
    cases heq
    exact trail_nil_eq_some_iff.mpr ⟨stop, hfirst, rfl⟩
  | cons first before ih =>
    cases path with
    | nil =>
      obtain ⟨_, _, heq⟩ := trail_nil_eq_some_iff.mp h
      simp at heq
    | cons i path =>
      obtain ⟨first', edge, next, rest, hfirst, hnext, hrest, heq⟩ := trail_cons_eq_some_iff.mp h
      cases heq
      exact trail_cons_eq_some_iff.mpr ⟨first, edge, next, _, hfirst, hnext, ih hrest, rfl⟩

/-- The nodes on a trail are reached from where it starts. -/
lemma reaches_of_mem_trail {root place : Nat} {node : Node}
    (h : trail g pointer child path = some stops) (hchild : g.resolve child = .ok (place, node))
    (hreached : g.Reaches root place) {stop : Stop} (hstop : stop ∈ stops) :
    g.Reaches root stop.place := by
  induction path generalizing pointer child place node stops with
  | nil =>
    obtain ⟨first, hfirst, rfl⟩ := trail_nil_eq_some_iff.mp h
    rw [Stop.at?_of_resolve hchild] at hfirst
    cases hfirst
    rw [List.mem_singleton.mp hstop]
    exact hreached
  | cons i path ih =>
    obtain ⟨first, edge, next, rest, hfirst, hnext, hrest, rfl⟩ := trail_cons_eq_some_iff.mp h
    rw [Stop.at?_of_resolve hchild] at hfirst
    cases hfirst
    rcases List.mem_cons.mp hstop with rfl | hstop
    · exact hreached
    · obtain ⟨second, _, hsecond, _⟩ := exists_cons_of_trail hrest
      have hresolve := Stop.resolve_of_at? hsecond
      have hnode := (Graph.resolve_eq_ok_iff.mp hchild).2
      exact ih hrest hresolve (.step hreached hnode (List.mem_of_getElem? hnext) hresolve) hstop

/-- The stops of a trail are nodes of the graph. -/
lemma getElem?_of_mem_trail (h : trail g pointer child path = some stops) {stop : Stop}
    (hstop : stop ∈ stops) : g.nodes[stop.place]? = some stop.node := by
  induction path generalizing pointer child stops with
  | nil =>
    obtain ⟨first, hfirst, rfl⟩ := trail_nil_eq_some_iff.mp h
    rw [List.mem_singleton.mp hstop]
    exact Stop.getElem?_of_at? hfirst
  | cons i path ih =>
    obtain ⟨first, edge, next, rest, hfirst, _, hrest, rfl⟩ := trail_cons_eq_some_iff.mp h
    rcases List.mem_cons.mp hstop with rfl | hstop
    · exact Stop.getElem?_of_at? hfirst
    · exact ih hrest hstop

/-- With names apart, one key belongs to one place. -/
lemma place_eq_of_key_eq {root : Nat} (hnames : g.NamesApart root) {s t : Stop}
    (hs : g.Reaches root s.place) (ht : g.Reaches root t.place)
    (hsnode : g.nodes[s.place]? = some s.node) (htnode : g.nodes[t.place]? = some t.node)
    (h : s.key = t.key) : s.place = t.place := by
  simp only [Stop.key, Graph.keyOf] at h
  cases hname : s.node.name? with
  | none =>
    cases hname' : t.node.name? with
    | none => simpa [hname, hname'] using h
    | some name => simp [hname, hname'] at h
  | some name =>
    cases hname' : t.node.name? with
    | none => simp [hname, hname'] at h
    | some name' =>
      simp only [hname, hname', NodeKey.component.injEq] at h
      subst h
      apply hnames _ _ name hs ht
      · simp [Graph.nameAt?, hsnode, hname]
      · simp [Graph.nameAt?, htnode, hname']

/-- Every place that is reached is at the end of a trail without a repeated key. -/
lemma exists_trail_of_reaches {root place : Nat} (hroot : root < g.nodes.size)
    (hnames : g.NamesApart root) (base : Pointer) (h : g.Reaches root place) :
    ∃ path stops stop, trail g base (.node root) path = some stops
      ∧ (stops.map Stop.key).Nodup ∧ stops.getLast? = some stop ∧ stop.place = place := by
  have hresolve := Graph.resolve_node (Array.getElem?_eq_getElem hroot)
  induction h with
  | root =>
    have hat : Stop.at? g base (.node root) = some ⟨base, root, g.nodes[root]⟩ :=
      Stop.at?_of_resolve hresolve
    exact ⟨[], _, _, trail_nil_eq_some_iff.mpr ⟨_, hat, rfl⟩, by simp, rfl, rfl⟩
  | @step place next node found edge child hreached hnode hchild hfound ih =>
    obtain ⟨path, stops, last, htrail, hnodup, hlast, rfl⟩ := ih
    have hmem : last ∈ stops := List.mem_of_getLast? hlast
    have hreaches : ∀ stop ∈ stops, g.Reaches root stop.place := fun stop hstop =>
      reaches_of_mem_trail htrail hresolve .root hstop
    let stop : Stop := ⟨last.pointer.join edge.segments, next, found⟩
    have hat : Stop.at? g (last.pointer.join edge.segments) child = some stop :=
      Stop.at?_of_resolve hfound
    by_cases hkey : stop.key ∈ stops.map Stop.key
    · -- the step comes back to a node on the trail, which can end there
      obtain ⟨earlier, hearlier, hsame⟩ := List.mem_map.mp hkey
      have hplace : earlier.place = next :=
        place_eq_of_key_eq (t := stop) hnames (hreaches _ hearlier)
          (.step hreached hnode hchild hfound) (getElem?_of_mem_trail htrail hearlier)
          (Stop.getElem?_of_at? hat) hsame
      obtain ⟨before, after, rfl⟩ := List.append_of_mem hearlier
      refine ⟨_, _, earlier, trail_take htrail, ?_, by simp, hplace⟩
      refine hnodup.sublist (List.Sublist.map _ ?_)
      simp
    · rw [getElem?_of_mem_trail htrail hmem] at hnode
      cases hnode
      obtain ⟨i, hi⟩ := List.mem_iff_getElem?.mp hchild
      refine ⟨_, _, stop, trail_concat htrail hlast hi hat, ?_, by simp, rfl⟩
      rw [List.map_append, List.map_singleton, List.nodup_append]
      refine ⟨hnodup, by simp, ?_⟩
      intro key hmem' other hother
      rw [List.mem_singleton.mp hother]
      rintro rfl
      exact hkey hmem'

end Walk

end ApiLint
