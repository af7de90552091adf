import ApiLint.Discrimination
import ApiLint.Matching
import ApiLint.Rule.Basic

/-!
# The rules of the library

Literals must fit the schemas that hold them, and the members of discriminated compositions must
carry the property that tells them apart.
-/

namespace ApiLint.Rule

/-- Defaults, examples and members of enumerations must fit the schema around them. -/
def typeMismatch : Rule :=
  ⟨Matching.ruleName, .literal fun g place _ value =>
    Check.extendBy fun pointer => Matching.mismatches g (.node place) pointer value⟩

/-- The members of a composition must carry the property of the discriminator. -/
def discriminated (name : String) (kind : CompositionKind) : Rule :=
  ⟨name, .schema fun g _ node =>
    Check.extendBy fun pointer => Discrimination.findings g node kind pointer⟩

def oneOfDiscriminator : Rule := discriminated Discrimination.oneOfRuleName .oneOf

def anyOfDiscriminator : Rule := discriminated Discrimination.anyOfRuleName .anyOf

/-- The rules that are known from the start, in the order in which they run. -/
def builtin : List Rule := [typeMismatch, oneOfDiscriminator, anyOfDiscriminator]

theorem mem_builtin_iff {rule : Rule} : rule ∈ builtin ↔
    rule = typeMismatch ∨ rule = oneOfDiscriminator ∨ rule = anyOfDiscriminator := by
  simp [builtin]

end ApiLint.Rule
