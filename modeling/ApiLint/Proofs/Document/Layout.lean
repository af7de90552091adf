import ApiLint.Document.Layout
import ApiLint.Proofs.Document.Aliases

/-!
# The places of schemas in the graph of a document

Laying a schema into a graph adds nodes behind those placed before, and changes none of these. What
is below a schema in line takes the places in front of it, so the schemas in line below a node stand
in an interval of places, and those below its children in consecutive intervals. Components take the
first places, in order of declaration.
-/

namespace ApiLint

/-- A graph has the nodes of an array from a place on. -/
def Graph.Shows (g : Graph) (place : Nat) (nodes : Array Node) : Prop :=
  ∀ i, place ≤ i → i < nodes.size → g.nodes[i]? = nodes[i]?

namespace Graph.Shows

variable {g : Graph} {place : Nat} {nodes nodes' : Array Node}

lemma ofPrefix (h : g.Shows place nodes') (hext : nodes.toList <+: nodes'.toList) :
    g.Shows place nodes := by
  intro i hplace hi
  obtain ⟨more, hmore⟩ := hext
  have hsize := congrArg List.length hmore
  simp only [List.length_append, Array.length_toList] at hsize
  rw [h i hplace (by omega), ← Array.getElem?_toList, ← hmore,
    List.getElem?_append_left (by simpa using hi), Array.getElem?_toList]

lemma mono {place' : Nat} (h : g.Shows place nodes) (hle : place ≤ place') :
    g.Shows place' nodes :=
  fun i hplace hi => h i (by omega) hi

end Graph.Shows

namespace Schema

variable (names : List String)

/-! ### What is placed stays in place -/

mutual

lemma prefix_lay : ∀ (schema : Schema) (nodes : Array Node),
    nodes.toList <+: (lay names schema nodes).2.toList
  | .component _, _ => List.prefix_refl _
  | .inline node, nodes => by
    rw [lay, Array.toList_push]
    exact (prefix_layNode node nodes).trans (List.prefix_append _ _)

lemma prefix_layNode : ∀ (node : SchemaNode Schema) (nodes : Array Node),
    nodes.toList <+: (layNode names node nodes).2.toList
  | ⟨_, _, _, _, properties, items, additional, oneOf, anyOf, allOf, _, _, _, _, _⟩, nodes => by
    rw [layNode]
    exact (prefix_layProperties properties nodes).trans <| (prefix_layOption items _).trans <|
      (prefix_layOption additional _).trans <| (prefix_layList oneOf _).trans <|
      (prefix_layList anyOf _).trans <| prefix_layList allOf _

lemma prefix_layProperties : ∀ (properties : List (String × Schema)) (nodes : Array Node),
    nodes.toList <+: (layProperties names properties nodes).2.toList
  | [], _ => List.prefix_refl _
  | (_, schema) :: rest, nodes => by
    rw [layProperties]
    exact (prefix_lay schema nodes).trans (prefix_layProperties rest _)

lemma prefix_layOption : ∀ (schema : Option Schema) (nodes : Array Node),
    nodes.toList <+: (layOption names schema nodes).2.toList
  | none, _ => List.prefix_refl _
  | some schema, nodes => prefix_lay schema nodes

lemma prefix_layList : ∀ (schemas : List Schema) (nodes : Array Node),
    nodes.toList <+: (layList names schemas nodes).2.toList
  | [], _ => List.prefix_refl _
  | schema :: rest, nodes => by
    rw [layList]
    exact (prefix_lay schema nodes).trans (prefix_layList rest _)

end

lemma size_le_of_isPrefix {nodes nodes' : Array Node} (h : nodes.toList <+: nodes'.toList) :
    nodes.size ≤ nodes'.size := by
  simpa using h.length_le

/-! ### Consecutive intervals -/

variable (g : Graph)

/-- A schema that a graph has as a child: it and what is below it are laid from one place up to
another. -/
def Laid (lo hi : Nat) (schema : Schema) (child : Child) : Prop :=
  ∃ nodes, nodes.size = lo ∧ (lay names schema nodes).2.size = hi
    ∧ (lay names schema nodes).1 = child ∧ g.Shows lo (lay names schema nodes).2

variable {names g}

lemma laid_lay {schema : Schema} {nodes nodes' : Array Node} (h : g.Shows nodes.size nodes')
    (hext : (lay names schema nodes).2.toList <+: nodes'.toList) :
    Laid names g nodes.size (lay names schema nodes).2.size schema (lay names schema nodes).1 :=
  ⟨nodes, rfl, rfl, rfl, h.ofPrefix hext⟩

lemma chain_layProperties {properties : List (String × Schema)} {nodes : Array Node}
    (h : g.Shows nodes.size (layProperties names properties nodes).2) :
    Chain (fun lo hi x y => x.1 = y.1 ∧ Laid names g lo hi x.2 y.2) nodes.size
      (layProperties names properties nodes).2.size properties
      (layProperties names properties nodes).1 := by
  induction properties generalizing nodes with
  | nil => exact .nil _
  | cons property rest ih =>
    obtain ⟨name, schema⟩ := property
    rw [layProperties] at h ⊢
    exact .cons ⟨rfl, laid_lay h (prefix_layProperties ..)⟩
      (ih (h.mono (size_le_of_isPrefix (prefix_lay ..))))

lemma chain_layList {schemas : List Schema} {nodes : Array Node}
    (h : g.Shows nodes.size (layList names schemas nodes).2) :
    Chain (Laid names g) nodes.size (layList names schemas nodes).2.size schemas
      (layList names schemas nodes).1 := by
  induction schemas generalizing nodes with
  | nil => exact .nil _
  | cons schema rest ih =>
    rw [layList] at h ⊢
    exact .cons (laid_lay h (prefix_layList ..)) (ih (h.mono (size_le_of_isPrefix (prefix_lay ..))))

lemma chain_layOption {schema : Option Schema} {nodes : Array Node}
    (h : g.Shows nodes.size (layOption names schema nodes).2) :
    Chain (Laid names g) nodes.size (layOption names schema nodes).2.size schema.toList
      (layOption names schema nodes).1.toList := by
  cases schema with
  | none => exact .nil _
  | some schema => exact .single (laid_lay h (List.prefix_refl _))

/-- A node and its children, these laid from one place up to another. -/
lemma chain_layNode {node : SchemaNode Schema} {nodes : Array Node}
    (h : g.Shows nodes.size (layNode names node nodes).2) :
    Chain (Chain fun lo hi => SchemaNode.OnChildren (Laid names g lo hi)) nodes.size
      (layNode names node nodes).2.size node.parts (layNode names node nodes).1.parts := by
  obtain ⟨type, format, nullable, required, properties, items, additional, oneOf, anyOf, allOf,
    discriminator, defaultValue, exampleValue, enumValues, reference⟩ := node
  rw [layNode] at h ⊢
  dsimp only at h ⊢
  have hallOf := prefix_layList names allOf
  have hanyOf := prefix_layList names anyOf
  have honeOf := prefix_layList names oneOf
  have hadditional := prefix_layOption names additional
  have hitems := prefix_layOption names items
  have hproperties := prefix_layProperties names properties nodes
  -- what the graph shows of all nodes placed, it shows of those placed up to each of the parts
  have h₅ := h.ofPrefix (hallOf _)
  have h₄ := h₅.ofPrefix (hanyOf _)
  have h₃ := h₄.ofPrefix (honeOf _)
  have h₂ := h₃.ofPrefix (hadditional _)
  have h₁ := h₂.ofPrefix (hitems _)
  have le₁ := size_le_of_isPrefix hproperties
  have le₂ := Nat.le_trans le₁ (size_le_of_isPrefix (hitems _))
  have le₃ := Nat.le_trans le₂ (size_le_of_isPrefix (hadditional _))
  have le₄ := Nat.le_trans le₃ (size_le_of_isPrefix (honeOf _))
  have le₅ := Nat.le_trans le₄ (size_le_of_isPrefix (hanyOf _))
  refine .cons ((chain_layProperties h₁).map ?_) <|
    .cons ((chain_layOption (h₂.mono le₁)).map ?_) <|
    .cons ((chain_layOption (h₃.mono le₂)).map ?_) <|
    .cons ((chain_layList (h₄.mono le₃)).map ?_) <|
    .cons ((chain_layList (h₅.mono le₄)).map ?_) <|
    .single ((chain_layList (h.mono le₅)).map ?_)
  · rintro _ _ x y ⟨hname, hlaid⟩
    exact ⟨congrArg Edge.property hname, hlaid⟩
  all_goals exact fun _ _ _ _ hlaid => ⟨rfl, hlaid⟩

/-- A node keeps what it declares. -/
lemma declares_layNode {cs : Components} {es : Entries} {node : SchemaNode Schema}
    (h : cs.Declares es node) (nodes : Array Node) :
    cs.Declares es (layNode names node nodes).1 := by
  cases node
  exact ⟨h.type, h.format, h.nullable, h.required, h.discriminator, h.literals⟩

lemma reference_layNode (node : SchemaNode Schema) (nodes : Array Node) :
    (layNode names node nodes).1.reference = node.reference := by
  cases node
  rfl

/-- A name is laid as the place of its component. -/
lemma laid_component {lo hi : Nat} {name : String} {child : Child}
    (h : Laid names g lo hi (.component name) child) :
    child = .node (names.idxOf name) ∧ lo = hi := by
  obtain ⟨nodes, rfl, rfl, rfl, _⟩ := h
  exact ⟨rfl, rfl⟩

variable (names g) in
/-- A node that a graph has at a place, what is below it laid from one place up to another. -/
def LaidNode (lo hi : Nat) (node : SchemaNode Schema) (place : Nat) : Prop :=
  ∃ nodes, nodes.size = lo ∧ (layNode names node nodes).2.size = hi
    ∧ g.nodes[place]? = some (layNode names node nodes).1 ∧ g.Shows lo (layNode names node nodes).2

/-- A schema in line is laid behind what is below it. -/
lemma laid_inline {lo hi : Nat} {node : SchemaNode Schema} {child : Child}
    (h : Laid names g lo hi (.inline node) child) :
    lo < hi ∧ child = .node (hi - 1) ∧ LaidNode names g lo (hi - 1) node (hi - 1) := by
  obtain ⟨nodes, rfl, rfl, rfl, hshows⟩ := h
  have hle := size_le_of_isPrefix (prefix_layNode names node nodes)
  rw [lay] at hshows ⊢
  dsimp only at hshows ⊢
  rw [Array.size_push, Nat.add_sub_cancel]
  refine ⟨by omega, rfl, nodes, rfl, rfl, ?_, hshows.ofPrefix ?_⟩
  · rw [hshows _ hle (by simp)]
    simp
  · rw [Array.toList_push]
    exact List.prefix_append _ _

/-- A laid node keeps its name and what it declares, and its children are laid. -/
lemma exists_of_laidNode {cs : Components} {es : Entries} {lo hi place : Nat}
    {node : SchemaNode Schema} (hdeclares : cs.Declares es node)
    (h : LaidNode names g lo hi node place) :
    ∃ node', g.nodes[place]? = some node' ∧ node'.reference = node.reference
      ∧ cs.Declares es node' ∧ Chain (Chain fun lo hi => SchemaNode.OnChildren (Laid names g lo hi))
        lo hi node.parts node'.parts := by
  obtain ⟨nodes, rfl, rfl, hnode, hshows⟩ := h
  exact ⟨_, hnode, reference_layNode node nodes, declares_layNode hdeclares nodes,
    chain_layNode hshows⟩

end Schema

/-! ### Components -/

namespace LoadedDocument

open Schema

variable {names : List String}

/-- Laying components fills the places that are kept for them, and leaves alone what else was placed
before. -/
lemma layComponents_keeps {components : List (String × Component)} {place : Nat}
    {nodes : Array Node} :
    nodes.size ≤ (layComponents names place components nodes).size
      ∧ ∀ i < nodes.size, i < place ∨ place + components.length ≤ i →
        (layComponents names place components nodes)[i]? = nodes[i]? := by
  induction components generalizing place nodes with
  | nil => exact ⟨Nat.le_refl _, fun _ _ _ => rfl⟩
  | cons component rest ih =>
    obtain ⟨name, component⟩ := component
    rw [layComponents]
    obtain ⟨more, hmore⟩ := prefix_layNode names component.node nodes
    have hle := size_le_of_isPrefix ⟨more, hmore⟩
    obtain ⟨hsize, hkeeps⟩ := @ih (place + 1)
      ((layNode names component.node nodes).2.setIfInBounds place
        (layNode names component.node nodes).1)
    rw [Array.size_setIfInBounds] at hsize hkeeps
    refine ⟨Nat.le_trans hle hsize, fun i hi hplace => ?_⟩
    rw [List.length_cons] at hplace
    rw [hkeeps i (by omega) (by omega), Array.getElem?_setIfInBounds_ne (by omega),
      ← Array.getElem?_toList, ← hmore, List.getElem?_append_left (by simpa using hi),
      Array.getElem?_toList]

/-- Components stand in the places that are kept for them, and what is below them behind all nodes
that were placed before. -/
lemma chain_layComponents {g : Graph} {components : List (String × Component)} {place : Nat}
    {nodes : Array Node} (hg : g.nodes = layComponents names place components nodes)
    (hplace : place + components.length ≤ nodes.size) :
    Chain (fun lo hi c i => LaidNode names g lo hi c.2.node i) nodes.size g.nodes.size components
      (List.range' place components.length) := by
  induction components generalizing place nodes with
  | nil =>
    rw [hg]
    exact .nil _
  | cons component rest ih =>
    obtain ⟨name, component⟩ := component
    rw [layComponents] at hg
    dsimp only at hg
    rw [List.length_cons] at hplace
    have hle := size_le_of_isPrefix (prefix_layNode names component.node nodes)
    have hrest := ih hg (by rw [Array.size_setIfInBounds]; omega)
    rw [Array.size_setIfInBounds] at hrest
    obtain ⟨_, hkeeps⟩ := @layComponents_keeps names rest (place + 1)
      ((layNode names component.node nodes).2.setIfInBounds place
        (layNode names component.node nodes).1)
    rw [← hg, Array.size_setIfInBounds] at hkeeps
    refine .cons ⟨nodes, rfl, rfl, ?_, ?_⟩ hrest
    · rw [hkeeps place (by omega) (by omega), Array.getElem?_setIfInBounds_self_of_lt (by omega)]
    · intro i hlo hhi
      rw [hkeeps i hhi (by omega), Array.getElem?_setIfInBounds_ne (by omega)]

end LoadedDocument

end ApiLint
