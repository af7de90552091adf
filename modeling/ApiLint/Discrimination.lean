import ApiLint.Fault
import ApiLint.Schema.Graph

/-!
# Discriminated compositions

Every member of a `oneOf` or `anyOf` with a discriminator must declare the property that the
discriminator names, and must list it as required. The two are examined for each member in turn, the
declaration first.
-/

namespace ApiLint.Discrimination

def oneOfRuleName : String := "ValidateOneOfDiscriminator"

def anyOfRuleName : String := "ValidateAnyOfDiscriminator"

/-- The rule for each composition that has alternatives. -/
def ruleName? : CompositionKind → Option String
  | .oneOf => some oneOfRuleName
  | .anyOf => some anyOfRuleName
  | .allOf => none

def missingMessage (member property : String) : String :=
  s!"Composite schema '{member}' must contain the property specified in the discriminator "
    ++ s!"'{property}'."

def notRequiredMessage (member property : String) : String :=
  s!"Composite schema '{member}''s required field list must contain the property "
    ++ s!"specified in the discriminator '{property}'."

/-- The name of a member: the component, or its place in the composition. -/
def memberName (node : Node) (index : Nat) : String := node.name?.getD s!"<inline #{index}>"

/-- The findings about one member. -/
def memberFindings (rule : String) (pointer : Pointer) (property : String) (index : Nat)
    (node : Node) : List Finding :=
  let name := memberName node index
  (if (node.property? property).isSome then []
    else [⟨rule, pointer, missingMessage name property, .discriminatorPropertyMissing⟩])
  ++ (if property ∈ node.required then []
    else [⟨rule, pointer, notRequiredMessage name property, .discriminatorNotRequired⟩])

/-- The findings about the members of a composition, the first of which has the given index. -/
def membersFindings (g : Graph) (rule : String) (pointer : Pointer) (property : String)
    (index : Nat) : List Child → Except Fault (List Finding)
  | [] => .ok []
  | child :: rest =>
    match g.resolve child with
    | .error raw => .error (.notASchema raw.kindPath "reference_id")
    | .ok (_, node) => do
      let others ← membersFindings g rule pointer property (index + 1) rest
      return memberFindings rule pointer property index node ++ others

/-- The findings about a composition of a node, under its own rule or another one. A node without a
discriminator and an empty composition have none. -/
def findings (g : Graph) (node : Node) (kind : CompositionKind) (pointer : Pointer)
    (rule : Option String := none) : Except Fault (List Finding) :=
  match ruleName? kind with
  | none => .error (.nothingToDiscriminate kind.keyword)
  | some own =>
    match node.discriminatorProperty? with
    | none => .ok []
    | some property =>
      let rule := (rule.filter fun name => !name.isEmpty).getD own
      membersFindings g rule (pointer.join [kind.keyword]) property 0 (node.composition kind)

/-- The findings about a composition of whatever stands in the place of a child. -/
def findingsAt (g : Graph) (schema : Child) (kind : CompositionKind) (pointer : Pointer)
    (rule : Option String := none) : Except Fault (List Finding) :=
  match ruleName? kind, g.resolve schema with
  | none, _ => .error (.nothingToDiscriminate kind.keyword)
  | some _, .error raw => .error (.notASchema raw.kindPath "discriminator_property")
  | some _, .ok (_, node) => findings g node kind pointer rule

end ApiLint.Discrimination
