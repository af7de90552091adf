import ApiLint.Rule.Set

/-!
# Walks

A walk runs the rules of a set on a schema graph, depth first from a root. At every node it runs the
rules of schemas, then the rules of literals on the default, the example and the members of the
enumeration, and then visits the children. A node whose key is on the path already is left out,
which is how the walk of a cyclic graph ends; the record of that names the node, and is a fault if
the name cannot be written. A node with a defect is a fault before any rule sees it.
-/

namespace ApiLint

/-- How a graph is walked: with which rules, under which pointer, and whether the walk leaves out
the components that it meets below its root. -/
structure Walker where
  rules : RuleSet
  base : Pointer := Pointer.root
  stopAtReferences : Bool := false

namespace Walk

/-- What a walk carries along: the context that rules see, the keys of the nodes on the path, and
the records of its log. -/
structure State where
  context : Context
  path : List NodeKey := []
  log : List LogRecord := []

/-- A part of a walk. A failure keeps what was done before it. -/
abbrev Visit := ExceptT Fault (StateM State)

/-- The name of the logger of walks. -/
def logger : String := "schema_lint.validation.walker"

namespace Visit

/-- Lets a rule act on the context. -/
def call {α : Type} (act : Check α) : Visit α :=
  ExceptT.mk fun s =>
    let (outcome, context) := act.run s.context
    (outcome, { s with context })

/-- Adds a record to the log. -/
def note (message : String) : Visit Unit :=
  modify fun s => { s with log := s.log ++ [.debug logger message] }

/-- Acts below the current pointer, and comes back to it also after a failure. -/
def within {α : Type} (segments : List String) (act : Visit α) : Visit α :=
  ExceptT.mk do
    modify fun s => { s with context := s.context.enter segments }
    let outcome ← act.run
    modify fun s => { s with context := s.context.leave }
    return outcome

/-- Acts with a key on the path, and takes the key off it also after a failure. -/
def along {α : Type} (key : NodeKey) (act : Visit α) : Visit α :=
  ExceptT.mk do
    modify fun s => { s with path := key :: s.path }
    let outcome ← act.run
    modify fun s => { s with path := s.path.erase key }
    return outcome

end Visit

/-! ### The shape of a node -/

/-- The defect of a child that is no schema. -/
def childDefect? (g : Graph) (edge : Edge) (index : Nat) (child : Child) : Option GraphDefect :=
  (g.nonSchema? child).map fun raw =>
    match edge with
    | .property name => .property name
    | .items => .slot "items" raw.kindName
    | .additional => .slot "additionalProperties" raw.kindName
    | .member kind => .member kind.keyword index

/-- The children of a node with their edges, each with its index among the members of its
composition. -/
def indexedChildren {σ : Type} (node : SchemaNode σ) : List (Edge × Nat × σ) :=
  node.properties.map (fun (name, child) => (.property name, 0, child))
    ++ node.items.toList.map (fun child => (.items, 0, child))
    ++ node.additional.toList.map (fun child => (.additional, 0, child))
    ++ CompositionKind.all.flatMap fun kind =>
      (node.composition kind).mapIdx fun i child => (.member kind, i, child)

/-- All defects of a node with the segments of their places: children that are no schemas, then
literals that are none. -/
def defects (g : Graph) (node : Node) : List (List String × GraphDefect) :=
  (indexedChildren node).filterMap (fun (edge, index, child) =>
      (childDefect? g edge index child).map fun defect => (edge.segments, defect))
    ++ node.literals.filterMap fun (segments, value) =>
      value.foreign?.map fun raw => (segments, .literal raw)

/-- Fails on the first defect of a node. -/
def checkShape (g : Graph) (node : Node) : Visit Unit := do
  match (defects g node).head? with
  | none => pure ()
  | some (segments, defect) =>
    let here := (← get).context.pointer
    throw (defect.faultAt (here.join segments))

/-! ### Visits -/

/-- Calls the rules of schemas on a node. -/
def runSchemaRules (rules : RuleSet) (g : Graph) (place : Nat) (node : Node) : Visit Unit :=
  (rules.rulesFor .schema).forM fun rule => Visit.call (rule.onSchema g place node)

/-- Calls the rules of literals on every literal of a node. -/
def runLiteralRules (rules : RuleSet) (g : Graph) (place : Nat) (node : Node) : Visit Unit :=
  node.literals.forM fun (segments, value) =>
    Visit.within segments <|
      (rules.rulesFor .literal).forM fun rule => Visit.call (rule.onLiteral g place node value)

/-- Records that a node is on the path already, and is left out. -/
def noteCycle (node : Node) (pointer : Pointer) : Visit Unit :=
  match node.describe with
  | .ok name => Visit.note s!"Cycle through '{name}' at {pointer}; not descending"
  | .error e => throw (.number e)

/-- Whether a walk leaves out a node that it has come to along a path. -/
def isCut (walker : Walker) (path : List NodeKey) (node : Node) : Bool :=
  walker.stopAtReferences && !path.isEmpty && node.name?.isSome

/-- Visits a child, given how the children below it are visited. -/
def visitStep (walker : Walker) (g : Graph) (below : Child → Visit Unit) (child : Child) :
    Visit Unit := do
  let state ← get
  match g.resolve child with
  | .error raw =>
    throw (.invalidGraph ⟨.root raw.kindName, some state.context.pointer⟩)
  | .ok (place, node) =>
    let key := Graph.keyOf place node
    if key ∈ state.path then
      noteCycle node state.context.pointer
    else if isCut walker state.path node then
      pure ()
    else
      checkShape g node
      Visit.along key do
        runSchemaRules walker.rules g place node
        runLiteralRules walker.rules g place node
        node.children.forM fun (edge, child) => Visit.within edge.segments (below child)

/-- Visits a child and what is below it, to at most the given depth; what else could be visited is
left to another act. -/
def visitOr (walker : Walker) (g : Graph) (deeper : Child → Visit Unit) : Nat → Child → Visit Unit
  | 0 => deeper
  | depth + 1 => visitStep walker g (visitOr walker g deeper depth)

/-- Visits a child and what is below it, to at most the given depth. -/
def visit (walker : Walker) (g : Graph) : Nat → Child → Visit Unit :=
  visitOr walker g fun _ => pure ()

/-- A depth that no visit of a graph exceeds: the keys on a path belong to different nodes, and one
more visit finds its key on the path. -/
def depthBound (g : Graph) : Nat := g.nodes.size + 1

/-- What a walk comes to: its findings or the fault that ended it, and the records of its log. -/
structure Outcome where
  findings : Except Fault (List Finding)
  log : List LogRecord

end Walk

/-- Walks a graph from a root. -/
def Walker.walk (walker : Walker) (g : Graph) (root : Child) : Walk.Outcome :=
  let opening := s!"Walking schema graph at {walker.base} with rules "
    ++ Raw.inspectNames walker.rules.names
  let start : Walk.State := ⟨⟨walker.base, [], {}⟩, [], [.debug Walk.logger opening]⟩
  match (Walk.visit walker g (Walk.depthBound g) root).run start with
  | (.error fault, state) => ⟨.error fault, state.log⟩
  | (.ok (), state) =>
    let findings := state.context.collector.findings
    let closing := s!"Walk at {walker.base} finished with {findings.length} error(s)"
    ⟨.ok findings, state.log ++ [.debug Walk.logger closing]⟩

end ApiLint
