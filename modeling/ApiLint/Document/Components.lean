import ApiLint.Document.Basic

/-!
# References to components

The components of a document are the entries of one mapping, which the version of the document
locates. Their names are the texts of the keys. A reference is the pointer to that mapping with the
escaped name of a component behind it. The body of a component may be a reference itself: then the
component is an alias, and its shape is that of the component at the end of the chain.
-/

namespace ApiLint

/-- The component schemas that a document declares. -/
structure Components where
  version : Version
  entries : Entries

namespace Components

/-- The pointer to the mapping that holds the components. -/
def container (version : Version) : Pointer := Pointer.root.join version.schemasPath

/-- The entries of the mapping at the end of a path. Nothing there, or on the way, is a mapping
without entries; anything else that is no mapping at the end is an error. -/
def entriesAt (path : List String) : List String → Raw → Except LoadError Entries
  | [], .dict es => .ok es
  | [], _ => .error (.schemasNotMapping path)
  | key :: keys, .dict es =>
    let value := Entries.field es key
    entriesAt path keys (if value.isVoid then .dict [] else value)
  | _ :: _, _ => .ok []

/-- The components of a document. -/
def ofDocument (document : Raw) : Except LoadError Components := do
  let version ← (Version.ofDocument document).mapError .version
  return ⟨version, ← entriesAt version.schemasPath version.schemasPath document⟩

/-- The names of the components, in order of declaration. -/
def names (cs : Components) : List String := cs.entries.map fun e => e.1.text

/-- The pointer to a component. -/
def pointerTo (cs : Components) (name : String) : Pointer := (container cs.version).push name

/-- What stands behind a beginning; none if the characters begin otherwise. -/
def textAfter? : List Char → List Char → Option (List Char)
  | [], cs => some cs
  | b :: bs, c :: cs => if b = c then textAfter? bs cs else none
  | _ :: _, [] => none

/-- The name in a reference; none if the reference leads anywhere else. -/
def referenceName? (cs : Components) (reference : String) : Option String :=
  (textAfter? (container cs.version ++ "/").toList reference.toList).map fun written =>
    String.ofList (Pointer.unescapeChars written)

/-- The component that a reference stands for. -/
def resolve (cs : Components) (pointer : Pointer) : Raw → Except LoadError String
  | .str reference =>
    match cs.referenceName? reference with
    | none => .error (.referenceElsewhere reference pointer (container cs.version))
    | some name =>
      if name ∈ cs.names then .ok name else .error (.referenceUnresolved reference pointer)
  | _ => .error (.referenceNotText pointer)

/-- The reference that a raw schema consists of. -/
def reference? : Raw → Option Raw
  | .dict es => Entries.field? es "$ref"
  | _ => none

/-- Follows aliases, at most so many, from the body of the last component on a chain; the chain has
the last component in front. -/
def follow (cs : Components) (pointer : Pointer) : Nat → List String → Raw →
    Except LoadError (String × Raw)
  | 0, chain, _ => .error (.aliasCycle pointer chain.reverse)
  | steps + 1, chain, body =>
    match reference? body with
    | none => .ok (chain.headD "", body)
    | some reference => do
      let target ← cs.resolve pointer reference
      if target ∈ chain then throw (.aliasCycle pointer (target :: chain).reverse)
      match Entries.field? cs.entries target with
      | some body => follow cs pointer steps (target :: chain) body
      | none => throw (.componentKey target)

/-- The component that gives a component its shape, and its body. A chain that comes back to itself
has no such component. -/
def aliasTarget (cs : Components) (name : String) (body : Raw) : Except LoadError (String × Raw) :=
  cs.follow (cs.pointerTo name) (cs.entries.length + 1) [name] body

/-- Follows references, at most so many, to the mapping that governs a literal; references followed
before are not followed again. -/
def governingFrom (cs : Components) : Nat → List String → Raw → Option Entries
  | 0, _, _ => none
  | steps + 1, seen, raw =>
    match raw with
    | .dict es =>
      match Entries.field? es "$ref" with
      | none => some es
      | some (.str reference) =>
        if reference ∈ seen then none
        else match cs.referenceName? reference with
          | some name =>
            governingFrom cs steps (reference :: seen) (Entries.field cs.entries name)
          | none => none
      | some _ => none
    | _ => none

/-- The mapping that governs the literals of a raw schema, behind its references. Without one, no
schema governs them. -/
def governing? (cs : Components) (raw : Raw) : Option Entries :=
  cs.governingFrom (cs.entries.length + 2) [] raw

end Components

end ApiLint
