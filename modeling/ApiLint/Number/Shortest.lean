import ApiLint.Number.Binary64

/-!
# Shortest decimal text

The fewest decimal digits that read back as the same binary64 number, and of those the nearest to
it. The numbers that read back are an interval around the number; for each count of digits only the
two neighbours of the number on that decimal grid can be the answer, so they are tried in turn.
-/

namespace ApiLint.Binary64

/-- Compares `c · 10 ^ p` with `x · 2 ^ q`. -/
def compareDecimal (c : Nat) (p : Int) (x : Nat) (q : Int) : Ordering :=
  compare (c * tenPow p * twoPow (-q)) (x * twoPow q * tenPow (-p))

/-- Whether `c · 10 ^ p` reads back as `m · 2 ^ e`. The interval ends half way to the neighbours,
a quarter unit on the lower side of a power of two; its ends belong to it iff `m` is even. -/
def readsBack (m : Nat) (e : Int) (c : Nat) (p : Int) : Bool :=
  let below := if m = twoPow 52 ∧ minExponent < e then 1 else 2
  let low := compareDecimal c p (4 * m - below) (e - 2)
  let high := compareDecimal c p (4 * m + 2) (e - 2)
  if m % 2 = 0 then low.isGE && high.isLE else low.isGT && high.isLT

/-- The exponent of the leading decimal digit of `m · 2 ^ e`, for a positive `m`. -/
def decimalOrder (m : Nat) (e : Int) : Int :=
  let estimate := Int.fdiv ((m.log2 + e) * 30103) 100000
  if (compareDecimal 1 (estimate + 1) m e).isLE then estimate + 1
  else if (compareDecimal 1 estimate m e).isGT then estimate - 1
  else estimate

/-- A decimal of the given count of digits that reads back, the nearer of two, a tie to the even
coefficient. -/
def withDigits? (m : Nat) (e order : Int) (count : Nat) : Option (Nat × Int) :=
  let p := order + 1 - count
  let n := m * twoPow e * tenPow (-p)
  let d := twoPow (-e) * tenPow p
  let c := n / d
  match readsBack m e c p, readsBack m e (c + 1) p with
  | true, true => some (roundDiv n d, p)
  | true, false => some (c, p)
  | false, true => some (c + 1, p)
  | false, false => none

/-- The coefficient without zeros at its end, and the exponent that goes with it. -/
def stripZeros (c : Nat) (p : Int) : Nat × Int :=
  if h : c ≠ 0 ∧ c % 10 = 0 then stripZeros (c / 10) (p + 1) else (c, p)
termination_by c
decreasing_by omega

/-- The shortest decimal `coefficient · 10 ^ exponent` that reads back as `m · 2 ^ e`. Seventeen
digits always do. -/
def shortest (m : Nat) (e : Int) : Nat × Int :=
  if m = 0 then (0, 0)
  else
    let order := decimalOrder m e
    match (List.range 17).findSome? fun i => withDigits? m e order (i + 1) with
    | some (c, p) => stripZeros c p
    | none => (0, 0)

example : shortest (2 ^ 52) (-52) = (1, 0) ∧ shortest 1 (-1074) = (5, -324) := by decide +kernel

end ApiLint.Binary64
