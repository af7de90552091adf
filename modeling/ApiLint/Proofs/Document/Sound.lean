import ApiLint.Proofs.Document.Layout
import ApiLint.Proofs.Matching.Kinds
import ApiLint.Proofs.Schema.Sound

/-!
# Loaded documents are sound

Whatever a document holds, as long as its schemas can be built: every literal that is converted is a
value, every reference below a component names a component, and so every child in the graph of the
document is a node of it. Components that are referred to before they are read make no difference,
and neither do keys that are no texts.
-/

namespace ApiLint

/-! ### Literals -/

namespace Literal

mutual

lemma isValue_ofRaw : ∀ (raw : Raw) {type format : Raw} {value : Literal},
    ofRaw type format raw = .ok value → value.IsValue
  | .list items, _, _, _, h => by
    rw [ofRaw] at h
    obtain ⟨values, hvalues, h⟩ := bind_eq_ok_iff.mp h
    cases h
    exact .array (isValue_ofItems items hvalues)
  | .pair k v, _, _, _, h => by
    rw [ofRaw] at h
    obtain ⟨first, hfirst, h⟩ := bind_eq_ok_iff.mp h
    obtain ⟨second, hsecond, h⟩ := bind_eq_ok_iff.mp h
    cases h
    apply IsValue.array
    simp [isValue_ofRaw k hfirst, isValue_ofRaw v hsecond]
  | .dict es, _, _, _, h => by
    rw [ofRaw] at h
    obtain ⟨members, hmembers, h⟩ := bind_eq_ok_iff.mp h
    cases h
    exact .object (isValue_ofEntries es (by simp) hmembers)
  | .null, _, _, _, h | .bool _, _, _, _, h | .int _, _, _, _, h | .float _, _, _, _, h
  | .str _, _, _, _, h | .bytes _, _, _, _, h | .date _, _, _, _, h | .dateTime _, _, _, _, h
  | .set _, _, _, _, h => by
    obtain ⟨kind, payload, rfl, -⟩ := becomes_of_ofScalar h
    exact .scalar kind payload

lemma isValue_ofItems : ∀ (raws : List Raw) {values : List Literal},
    ofItems raws = .ok values → ∀ value ∈ values, value.IsValue
  | [], _, h => by
    cases h
    simp
  | raw :: raws, _, h => by
    rw [ofItems] at h
    obtain ⟨first, hfirst, h⟩ := bind_eq_ok_iff.mp h
    obtain ⟨rest, hrest, h⟩ := bind_eq_ok_iff.mp h
    cases h
    exact List.forall_mem_cons.mpr ⟨isValue_ofRaw raw hfirst, isValue_ofItems raws hrest⟩

lemma isValue_ofEntries : ∀ (es : List (Raw × Raw)) {before members : Fields Literal},
    (∀ m ∈ before, m.2.IsValue) → ofEntries before es = .ok members → ∀ m ∈ members, m.2.IsValue
  | [], _, _, hbefore, h => by
    cases h
    exact hbefore
  | (k, v) :: es, _, _, hbefore, h => by
    rw [ofEntries] at h
    obtain ⟨_, -, h⟩ := bind_eq_ok_iff.mp h
    obtain ⟨member, hmember, h⟩ := bind_eq_ok_iff.mp h
    refine isValue_ofEntries es ?_ h
    intro m hm
    rcases Fields.mem_insert hm with hm | rfl
    · exact hbefore m hm
    · exact isValue_ofRaw v hmember

end

end Literal

namespace Components

variable {cs : Components}

lemma isValue_plainLiteral {governing : Option Entries} {raw : Raw} {value : Literal}
    (h : plainLiteral governing raw = .ok value) : value.IsValue :=
  Literal.isValue_ofRaw raw (mapError_eq_ok_iff.mp h)

mutual

/-- What is converted from a document is a value. -/
lemma isValue_literalAt : ∀ (raw : Raw) {schema : Raw} {depth : Nat} {value : Literal},
    cs.literalAt schema depth raw = .ok value → value.IsValue
  | .list items, _, _, _, h => by
    rw [literalAt] at h
    split at h
    · cases h
    · obtain ⟨values, hvalues, h⟩ := bind_eq_ok_iff.mp h
      cases h
      exact .array (isValue_literalItems items hvalues)
  | .dict es, _, _, _, h => by
    rw [literalAt] at h
    split at h
    · cases h
    · obtain ⟨members, hmembers, h⟩ := bind_eq_ok_iff.mp h
      cases h
      exact .object (isValue_literalMembers es (by simp) hmembers)
  | .null, _, _, _, h | .bool _, _, _, _, h | .int _, _, _, _, h | .float _, _, _, _, h
  | .str _, _, _, _, h | .bytes _, _, _, _, h | .date _, _, _, _, h | .dateTime _, _, _, _, h
  | .set _, _, _, _, h | .pair _ _, _, _, _, h => by
    rw [literalAt_plain (by simp) (by simp)] at h
    split at h
    · cases h
    · exact isValue_plainLiteral h

lemma isValue_literalItems : ∀ (raws : List Raw) {schema : Raw} {depth : Nat}
    {values : List Literal}, cs.literalItems schema depth raws = .ok values →
    ∀ value ∈ values, value.IsValue
  | [], _, _, _, h => by
    rw [literalItems] at h
    cases h
    simp
  | raw :: raws, _, _, _, h => by
    rw [literalItems] at h
    obtain ⟨first, hfirst, h⟩ := bind_eq_ok_iff.mp h
    obtain ⟨rest, hrest, h⟩ := bind_eq_ok_iff.mp h
    cases h
    exact List.forall_mem_cons.mpr ⟨isValue_literalAt raw hfirst, isValue_literalItems raws hrest⟩

lemma isValue_literalMembers : ∀ (es : List (Raw × Raw)) {governing : Option Entries} {depth : Nat}
    {before members : Fields Literal}, (∀ m ∈ before, m.2.IsValue) →
    cs.literalMembers governing depth before es = .ok members → ∀ m ∈ members, m.2.IsValue
  | [], _, _, _, _, hbefore, h => by
    rw [literalMembers] at h
    cases h
    exact hbefore
  | (key, raw) :: es, _, _, _, _, hbefore, h => by
    rw [literalMembers] at h
    obtain ⟨_, -, h⟩ := bind_eq_ok_iff.mp h
    obtain ⟨schema, _, h⟩ := bind_eq_ok_iff.mp h
    obtain ⟨member, hmember, h⟩ := bind_eq_ok_iff.mp h
    refine isValue_literalMembers es ?_ h
    intro m hm
    rcases Fields.mem_insert hm with hm | rfl
    · exact hbefore m hm
    · exact isValue_literalAt raw hmember

end

lemma ReadsSlot.isValue {es : Entries} {name : String} {kept result : Option Literal}
    (h : cs.ReadsSlot es name kept result) (hkept : ∀ value ∈ kept, value.IsValue) :
    ∀ value ∈ result, value.IsValue := by
  rcases h with ⟨_, rfl⟩ | ⟨raw, value, _, hvalue, rfl⟩
  · exact hkept
  · rintro _ ⟨rfl⟩
    exact isValue_literalAt raw hvalue

/-- What is set in place of a literal is a value; all else of the node stays as it is. -/
lemma isSound_withLiterals {P : Schema → Prop} {es : Entries} {node node' : SchemaNode Schema}
    (hnode : node.IsSound P) (h : cs.withLiterals es node = .ok node') : node'.IsSound P := by
  obtain ⟨hchild, hdefault, hexample, -⟩ := SchemaNode.isSound_iff.mp hnode
  obtain ⟨first, second, values, rfl, hfirst, hsecond, hvalues⟩ := withLiterals_eq_ok h
  refine SchemaNode.isSound_iff.mpr
    ⟨hchild, hfirst.isValue hdefault, hsecond.isValue hexample, fun value hvalue => ?_⟩
  obtain ⟨raw, _, hraw⟩ := exists_of_forall₂_of_mem_right hvalues hvalue
  exact isValue_literalAt raw hraw

end Components

/-! ### Schemas -/

/-- A schema whose references name components, and whose literals are values. What is in line has no
name. -/
inductive Schema.IsSound (names : List String) : Schema → Prop
  | component {name : String} (h : name ∈ names) : IsSound names (.component name)
  | inline {node : SchemaNode Schema} (reference : node.reference = none)
      (child : ∀ e ∈ node.children, IsSound names e.2)
      (literal : ∀ l ∈ node.literals, l.2.IsValue) : IsSound names (.inline node)

namespace Schema

lemma isSound_inline_iff {names : List String} {node : SchemaNode Schema} :
    (inline node).IsSound names ↔ node.reference = none ∧ node.IsSound (IsSound names) := by
  constructor
  · intro h
    cases h with
    | inline reference child literal => exact ⟨reference, child, literal⟩
  · rintro ⟨reference, h⟩
    exact .inline reference h.child h.literal

lemma IsSound.mono {names names' : List String} (hnames : names ⊆ names') {schema : Schema}
    (h : schema.IsSound names) : schema.IsSound names' := by
  induction h with
  | component h => exact .component (hnames h)
  | inline reference _ literal ih => exact .inline reference ih literal

end Schema

namespace Components

variable {cs : Components}

/-- Of two nodes that are joined, each child is one of the first or of the second. -/
lemma forall_mem_children_joined {P : Schema → Prop} {node read : SchemaNode Schema}
    (hnode : ∀ e ∈ node.children, P e.2) (hread : ∀ e ∈ read.children, P e.2) :
    ∀ e ∈ (joined node read).children, P e.2 := by
  obtain ⟨hproperty, hitem, hmore, hone, hany, hall⟩ :=
    SchemaNode.forall_mem_children_iff.mp hnode
  obtain ⟨hproperty', hitem', hmore', hone', hany', hall'⟩ :=
    SchemaNode.forall_mem_children_iff.mp hread
  have hslot : ∀ {x y : Option Schema}, (∀ s ∈ x, P s) → (∀ s ∈ y, P s) →
      ∀ s ∈ (y <|> x), P s := by
    intro x y hx hy s hs
    cases y with
    | none => exact hx s (by simpa using hs)
    | some schema => exact hy s hs
  refine SchemaNode.forall_mem_children_iff.mpr ⟨?_, hslot hitem hitem', hslot hmore hmore',
    List.forall_mem_append.mpr ⟨hone, hone'⟩, List.forall_mem_append.mpr ⟨hany, hany'⟩,
    List.forall_mem_append.mpr ⟨hall, hall'⟩⟩
  intro p hp
  exact (Fields.mem_merge hp).elim (hproperty p) (hproperty' p)

/-- Reading a raw schema into a sound node gives a sound node, if all that is read from the raw
schemas below is sound. -/
lemma isSound_fill {pointer : Pointer} {node node' : SchemaNode Schema} {es : Entries}
    {P : Schema → Prop} (hnode : node.IsSound P)
    (hP : ∀ raw schema, sizeOf raw < sizeOf es → cs.Builds raw schema → P schema)
    (h : cs.fill pointer node es (cs.partsAt pointer es) = .ok node') : node'.IsSound P := by
  obtain ⟨read, -, hsimilar, h⟩ := exists_read_of_fill h
  obtain ⟨hchild, hliterals⟩ := SchemaNode.isSound_iff.mp hnode
  have hread : ∀ e ∈ read.children, P e.2 := by
    intro e he
    obtain ⟨below, hbelow, -, hbuilds⟩ :=
      exists_of_forall₂_of_mem_right hsimilar.forall₂_children he
    exact hP below.2 e.2 (Entries.sizeOf_lt_of_mem_outline hbelow) hbuilds
  apply isSound_withLiterals _ h
  exact SchemaNode.isSound_iff.mpr ⟨forall_mem_children_joined hchild hread, hliterals⟩

/-- What is read from a document is sound. -/
lemma Builds.isSound {raw : Raw} {schema : Schema} (h : cs.Builds raw schema) :
    schema.IsSound cs.names := by
  induction hsize : sizeOf raw using Nat.strongRecOn generalizing raw schema with
  | _ size ih =>
    obtain ⟨es, rfl⟩ := exists_dict_of_builds h
    obtain ⟨pointer, h⟩ := h
    rw [schemaAt] at h
    split at h
    · next reference _ =>
      obtain ⟨name, hname, rfl⟩ := map_eq_ok_iff.mp h
      obtain ⟨_, _, _, hmem⟩ := resolve_eq_ok hname
      exact .component hmem
    · obtain ⟨node, hnode, rfl⟩ := map_eq_ok_iff.mp h
      refine Schema.isSound_inline_iff.mpr ⟨reference_fill hnode, ?_⟩
      apply isSound_fill (SchemaNode.isSound_blank none) _ hnode
      intro below schema hlt hbuilds
      simp only [Raw.dict.sizeOf_spec] at hsize
      exact ih (sizeOf below) (by omega) hbuilds rfl

/-! ### Components -/

/-- The names of the entries that are loaded are names of components, besides those loaded before.
-/
lemma names_load {es : List (Raw × Raw)} {loaded d : LoadedDocument}
    (h : cs.load es loaded = .ok d) :
    (es.map fun e => e.1.text) ⊆ d.names ∧ loaded.names ⊆ d.names := by
  induction es generalizing loaded with
  | nil =>
    cases h
    exact ⟨by simp, List.Subset.refl _⟩
  | cons e es ih =>
    obtain ⟨next, hnext, hrest⟩ := load_cons_eq_ok h
    obtain ⟨hes, hsub⟩ := ih hrest
    obtain ⟨_, _, node, -, -, rfl⟩ := addComponent_eq_ok_iff.mp hnext
    rw [LoadedDocument.names, Fields.names_insert] at hsub
    split at hsub
    · next hmem => exact ⟨List.cons_subset.mpr ⟨hsub hmem, hes⟩, hsub⟩
    · obtain ⟨hloaded, hname⟩ := List.append_subset.mp hsub
      exact ⟨List.cons_subset.mpr ⟨hname (List.mem_singleton_self _), hes⟩, hloaded⟩

/-- What holds of a blank node and is kept when an entry is read into a node holds of the nodes of
all components. -/
lemma forall_mem_load {P : String → SchemaNode Schema → Prop}
    (hblank : ∀ name, P name { SchemaNode.blank with reference := some name })
    {es : List (Raw × Raw)}
    (hfill : ∀ e ∈ es, ∀ {target shape before node},
      cs.aliasTarget e.1.text e.2 = .ok (target, .dict shape) → P e.1.text before →
      cs.fill (cs.pointerTo e.1.text) before shape (cs.partsAt (cs.pointerTo e.1.text) shape)
        = .ok node → P e.1.text node)
    {loaded d : LoadedDocument} (hloaded : ∀ c ∈ loaded.components, P c.1 c.2.node)
    (h : cs.load es loaded = .ok d) : ∀ c ∈ d.components, P c.1 c.2.node := by
  induction es generalizing loaded with
  | nil =>
    cases h
    exact hloaded
  | cons e es ih =>
    obtain ⟨hfill, hes⟩ := List.forall_mem_cons.mp hfill
    obtain ⟨next, hnext, hrest⟩ := load_cons_eq_ok h
    refine ih hes ?_ hrest
    obtain ⟨_, _, node, htarget, hnode, rfl⟩ := addComponent_eq_ok_iff.mp hnext
    have hbefore : P e.1.text (nodeBefore loaded e.1.text) := by
      rw [nodeBefore]
      split
      · next component hfind => exact hloaded _ (Fields.mem_of_find? hfind)
      · exact hblank _
    intro c hc
    rcases Fields.mem_insert hc with hc | rfl
    · exact hloaded c hc
    · exact hfill htarget hbefore hnode

end Components

/-- Below the components of a loaded document, references name components of it. -/
lemma LoadedDocument.isSound_components {document : Raw} {d : LoadedDocument}
    (h : ofRaw document = .ok d) :
    ∀ c ∈ d.components, c.2.node.IsSound (Schema.IsSound d.names) := by
  obtain ⟨cs, -, -, hload⟩ := ofRaw_eq_ok_iff.mp h
  have hsound := Components.forall_mem_load
    (P := fun _ node => node.IsSound (Schema.IsSound cs.names))
    (fun name => SchemaNode.isSound_blank (some name))
    (fun _ _ _ _ _ _ _ hbefore hnode =>
      Components.isSound_fill hbefore (fun _ _ _ hbuilds => hbuilds.isSound) hnode)
    (by simp) hload
  intro c hc
  exact (hsound c hc).mono fun schema hschema => hschema.mono (Components.names_load hload).1

/-! ### Layout -/

/-- A child that is one of so many nodes. -/
def Child.IsWithin (size : Nat) (child : Child) : Prop := ∃ place < size, child = .node place

lemma Child.IsWithin.mono {size size' : Nat} (hle : size ≤ size') {child : Child}
    (h : child.IsWithin size) : child.IsWithin size' := by
  obtain ⟨place, hlt, rfl⟩ := h
  exact ⟨place, by omega, rfl⟩

/-- Nodes that are sound, and have each other as children. -/
def Schema.IsClosed (nodes : Array Node) : Prop :=
  ∀ node ∈ nodes, node.IsSound (Child.IsWithin nodes.size)

namespace Schema

variable {names : List String}

lemma IsClosed.push {nodes : Array Node} {node : Node} (h : IsClosed nodes)
    (hnode : node.IsSound (Child.IsWithin nodes.size)) : IsClosed (nodes.push node) := by
  intro node' hnode'
  have hmono : ∀ child : Child, child.IsWithin nodes.size → child.IsWithin (nodes.push node).size :=
    fun child hchild => hchild.mono (by simp)
  rcases Array.mem_push.mp hnode' with hnode' | rfl
  · exact (h node' hnode').mono hmono
  · exact hnode.mono hmono

/-- What laying leads to from closed nodes: at least as many closed nodes, and children among
them. -/
def Extends (nodes nodes' : Array Node) (good : (Child → Prop) → Prop) : Prop :=
  nodes.size ≤ nodes'.size ∧ IsClosed nodes' ∧ good (Child.IsWithin nodes'.size)

mutual

/-- Laying a sound schema behind closed nodes gives closed nodes and a child among them. -/
lemma isClosed_lay : ∀ (schema : Schema) {nodes : Array Node}, schema.IsSound names →
    names.length ≤ nodes.size → IsClosed nodes →
    Extends nodes (lay names schema nodes).2 fun P => P (lay names schema nodes).1
  | .component name, nodes, h, hsize, hnodes => by
    cases h with
    | component hmem =>
      have hlt := List.idxOf_lt_length_of_mem hmem
      exact ⟨Nat.le_refl _, hnodes, _, Nat.lt_of_lt_of_le hlt hsize, rfl⟩
  | .inline node, nodes, h, hsize, hnodes => by
    obtain ⟨hle, hclosed, hnode⟩ := isClosed_layNode node (isSound_inline_iff.mp h).2 hsize hnodes
    rw [lay]
    refine ⟨?_, hclosed.push hnode, _, ?_, rfl⟩
    · simp only [Array.size_push]
      omega
    · simp

lemma isClosed_layNode : ∀ (node : SchemaNode Schema) {nodes : Array Node},
    node.IsSound (IsSound names) → names.length ≤ nodes.size → IsClosed nodes →
    Extends nodes (layNode names node nodes).2 fun P => (layNode names node nodes).1.IsSound P
  | ⟨_, _, _, _, properties, items, additional, oneOf, anyOf, allOf, _, _, _, _, _⟩, nodes, h,
      hsize, hnodes => by
    obtain ⟨hproperties, hitems, hadditional, honeOf, hanyOf, hallOf⟩ :=
      SchemaNode.forall_mem_children_iff.mp h.child
    obtain ⟨le₁, h₁, in₁⟩ := isClosed_layProperties properties hproperties hsize hnodes
    obtain ⟨le₂, h₂, in₂⟩ := isClosed_layOption items hitems (by omega) h₁
    obtain ⟨le₃, h₃, in₃⟩ := isClosed_layOption additional hadditional (by omega) h₂
    obtain ⟨le₄, h₄, in₄⟩ := isClosed_layList oneOf honeOf (by omega) h₃
    obtain ⟨le₅, h₅, in₅⟩ := isClosed_layList anyOf hanyOf (by omega) h₄
    obtain ⟨le₆, h₆, in₆⟩ := isClosed_layList allOf hallOf (by omega) h₅
    rw [layNode]
    refine ⟨by dsimp only; omega, h₆,
      SchemaNode.forall_mem_children_iff.mpr ⟨?_, ?_, ?_, ?_, ?_, in₆⟩, h.literal⟩
    · exact fun p hp => (in₁ p hp).mono (by dsimp only; omega)
    · exact fun s hs => (in₂ s hs).mono (by dsimp only; omega)
    · exact fun s hs => (in₃ s hs).mono (by dsimp only; omega)
    · exact fun s hs => (in₄ s hs).mono (by dsimp only; omega)
    · exact fun s hs => (in₅ s hs).mono (by dsimp only; omega)

lemma isClosed_layProperties : ∀ (properties : List (String × Schema)) {nodes : Array Node},
    (∀ p ∈ properties, p.2.IsSound names) → names.length ≤ nodes.size → IsClosed nodes →
    Extends nodes (layProperties names properties nodes).2
      fun P => ∀ p ∈ (layProperties names properties nodes).1, P p.2
  | [], _, _, _, hnodes => ⟨Nat.le_refl _, hnodes, by simp [layProperties]⟩
  | (_, schema) :: rest, nodes, h, hsize, hnodes => by
    obtain ⟨hschema, hrest⟩ := List.forall_mem_cons.mp h
    obtain ⟨le₁, h₁, in₁⟩ := isClosed_lay schema hschema hsize hnodes
    obtain ⟨le₂, h₂, in₂⟩ := isClosed_layProperties rest hrest (by omega) h₁
    rw [layProperties]
    exact ⟨le₁.trans le₂, h₂, List.forall_mem_cons.mpr ⟨in₁.mono le₂, in₂⟩⟩

lemma isClosed_layOption : ∀ (schema : Option Schema) {nodes : Array Node},
    (∀ s ∈ schema, s.IsSound names) → names.length ≤ nodes.size → IsClosed nodes →
    Extends nodes (layOption names schema nodes).2
      fun P => ∀ s ∈ (layOption names schema nodes).1, P s
  | none, _, _, _, hnodes => ⟨Nat.le_refl _, hnodes, by simp [layOption]⟩
  | some schema, nodes, h, hsize, hnodes => by
    obtain ⟨hle, hclosed, hin⟩ := isClosed_lay schema (h schema rfl) hsize hnodes
    refine ⟨hle, hclosed, ?_⟩
    intro s hs
    cases hs
    exact hin

lemma isClosed_layList : ∀ (schemas : List Schema) {nodes : Array Node},
    (∀ s ∈ schemas, s.IsSound names) → names.length ≤ nodes.size → IsClosed nodes →
    Extends nodes (layList names schemas nodes).2
      fun P => ∀ s ∈ (layList names schemas nodes).1, P s
  | [], _, _, _, hnodes => ⟨Nat.le_refl _, hnodes, by simp [layList]⟩
  | schema :: rest, nodes, h, hsize, hnodes => by
    obtain ⟨hschema, hrest⟩ := List.forall_mem_cons.mp h
    obtain ⟨le₁, h₁, in₁⟩ := isClosed_lay schema hschema hsize hnodes
    obtain ⟨le₂, h₂, in₂⟩ := isClosed_layList rest hrest (by omega) h₁
    rw [layList]
    exact ⟨le₁.trans le₂, h₂, List.forall_mem_cons.mpr ⟨in₁.mono le₂, in₂⟩⟩

end

end Schema

namespace LoadedDocument

open Schema

variable {names : List String}

lemma isClosed_layComponents {components : List (String × Component)} {place : Nat}
    {nodes : Array Node} (h : ∀ c ∈ components, c.2.node.IsSound (Schema.IsSound names))
    (hsize : names.length ≤ nodes.size) (hnodes : IsClosed nodes) :
    nodes.size ≤ (layComponents names place components nodes).size
      ∧ IsClosed (layComponents names place components nodes) := by
  induction components generalizing place nodes with
  | nil => exact ⟨Nat.le_refl _, hnodes⟩
  | cons c rest ih =>
    obtain ⟨_, component⟩ := c
    obtain ⟨hcomponent, hrest⟩ := List.forall_mem_cons.mp h
    obtain ⟨hle, hclosed, hnode⟩ := isClosed_layNode component.node hcomponent hsize hnodes
    rw [layComponents]
    have hset : IsClosed ((layNode names component.node nodes).2.setIfInBounds place
        (layNode names component.node nodes).1) := by
      intro node hmem
      rw [Array.size_setIfInBounds]
      rcases Array.mem_or_eq_of_mem_setIfInBounds hmem with hmem | rfl
      · exact hclosed node hmem
      · exact hnode
    have hrest' := @ih (place + 1) _ hrest (by rw [Array.size_setIfInBounds]; omega) hset
    obtain ⟨hsize', hclosed'⟩ := hrest'
    rw [Array.size_setIfInBounds] at hsize'
    exact ⟨hle.trans hsize', hclosed'⟩

/-- The graph of a loaded document has the nodes of its components, and it is sound. -/
theorem isSound_graph {document : Raw} {d : LoadedDocument} (h : ofRaw document = .ok d) :
    d.components.length ≤ d.graph.nodes.size ∧ d.graph.IsSound := by
  have hlength : d.names.length = d.components.length := by simp [names, Fields.names]
  have hblank : IsClosed (Array.replicate d.components.length (.blank : Node)) := by
    intro node hnode
    rw [Array.eq_of_mem_replicate hnode]
    exact SchemaNode.isSound_blank none
  obtain ⟨hsize, hclosed⟩ :=
    @isClosed_layComponents _ _ 0 _ (isSound_components h) (by simp [hlength]) hblank
  rw [Array.size_replicate] at hsize
  refine ⟨hsize, ?_⟩
  intro node hnode
  apply (hclosed node hnode).mono
  rintro child ⟨place, hlt, rfl⟩
  exact ⟨_, Graph.resolve_node (Array.getElem?_eq_getElem hlt)⟩

end LoadedDocument

end ApiLint
