/-!
# Binary floating point numbers

Numbers of the binary64 format, kept as a sign, a significand and a power of two, with arithmetic
on naturals: every operation computes the exact result as a ratio and rounds it once, to the nearest
number of the format and a tie to the even significand.
-/

namespace ApiLint

/-- A binary64 number: `± significand · 2 ^ exponent`, an infinity, or not a number. A finite number
has a significand below `2 ^ 53`; it is below `2 ^ 52` only at the least exponent. -/
inductive Binary64
  | finite (negative : Bool) (significand : Nat) (exponent : Int)
  | infinite (negative : Bool)
  | nan
  deriving DecidableEq, Repr, Inhabited

namespace Binary64

/-- The exponent of the smallest positive number. -/
def minExponent : Int := -1074

/-- The exponent of the largest finite numbers. -/
def maxExponent : Int := 971

/-- The quotient rounded to the nearest natural, a tie to the even one. -/
def roundDiv (n d : Nat) : Nat :=
  let q := n / d
  let r := n % d
  if 2 * r < d then q else if d < 2 * r then q + 1 else q + q % 2

/-- `2 ^ e` for a non-negative `e` and `1` otherwise. -/
def twoPow (e : Int) : Nat := Nat.pow 2 e.toNat

/-- `10 ^ e` for a non-negative `e` and `1` otherwise. -/
def tenPow (e : Int) : Nat := Nat.pow 10 e.toNat

/-- The floor of the base two logarithm of `n / d`, for positive `n` and `d`. -/
def logRatio (n d : Nat) : Int :=
  let k : Int := n.log2 - d.log2
  if d * twoPow k ≤ n * twoPow (-k) then k else k - 1

/-- Zero of the given sign. -/
def zero (negative : Bool) : Binary64 := .finite negative 0 minExponent

/-- The number nearest to `n / d`, with a sign. -/
def ofRatio (negative : Bool) (n d : Nat) : Binary64 :=
  if n = 0 then zero negative
  else
    let e := max (logRatio n d - 52) minExponent
    let m := roundDiv (n * twoPow (-e)) (d * twoPow e)
    let (m, e) := if m = twoPow 53 then (twoPow 52, e + 1) else (m, e)
    if maxExponent < e then .infinite negative else .finite negative m e

/-- The number nearest to `± m · 2 ^ e`. -/
def ofScaled (negative : Bool) (m : Nat) (e : Int) : Binary64 :=
  ofRatio negative (m * twoPow e) (twoPow (-e))

/-- The number nearest to an integer, an infinity if the integer is out of range. -/
def ofInt (n : Int) : Binary64 := ofRatio (decide (n < 0)) n.natAbs 1

/-- The number nearest to an integer, if the integer is in range. -/
def ofInt? (n : Int) : Option Binary64 :=
  match ofInt n with
  | .infinite _ => none
  | x => some x

/-- The number of decimal digits of a natural, none for zero. -/
def decimalLength (n : Nat) : Nat := if n = 0 then 0 else (Nat.toDigits 10 n).length

/-- The number nearest to `± coefficient · 10 ^ exponent`. Magnitudes far outside the range are
decided by their order alone, so that no power beyond the range is computed. -/
def ofDecimal (negative : Bool) (coefficient : Nat) (exponent : Int) : Binary64 :=
  let order := decimalLength coefficient + exponent
  if coefficient = 0 ∨ order < -330 then zero negative
  else if 310 < order then .infinite negative
  else ofRatio negative (coefficient * tenPow exponent) (tenPow (-exponent))

/-- The number with the other sign. -/
def neg : Binary64 → Binary64
  | .finite s m e => .finite (!s) m e
  | .infinite s => .infinite (!s)
  | .nan => .nan

/-- The rounded product. -/
def mul : Binary64 → Binary64 → Binary64
  | .nan, _ | _, .nan => .nan
  | .infinite s, .infinite t => .infinite (s != t)
  | .infinite s, .finite t m _ | .finite t m _, .infinite s =>
    if m = 0 then .nan else .infinite (s != t)
  | .finite s m e, .finite t n f => ofScaled (s != t) (m * n) (e + f)

/-- A signed significand. -/
def signedSignificand (negative : Bool) (m : Nat) : Int := if negative then -m else m

/-- The rounded sum. A sum of zero is negative only if both terms are. -/
def add : Binary64 → Binary64 → Binary64
  | .nan, _ | _, .nan => .nan
  | .infinite s, .infinite t => if s = t then .infinite s else .nan
  | .infinite s, .finite .. | .finite .., .infinite s => .infinite s
  | .finite s m e, .finite t n f =>
    let low := min e f
    let total := signedSignificand s (m * twoPow (e - low)) + signedSignificand t (n * twoPow (f - low))
    if total = 0 then zero (s && t) else ofScaled (decide (total < 0)) total.natAbs low

/-- Whether the number is a zero of either sign. -/
def isZero : Binary64 → Bool
  | .finite _ m _ => m == 0
  | _ => false

/-- Numeric equality: the zeros are equal, and not-a-number equals nothing. -/
def numEq : Binary64 → Binary64 → Bool
  | .nan, _ | _, .nan => false
  | x, y => (x.isZero && y.isZero) || x == y

/-- Whether the number is the integer `n`. -/
def isInt (x : Binary64) (n : Int) : Bool :=
  match x with
  | .finite s m e => signedSignificand s (m * twoPow e) == n * twoPow (-e)
  | _ => false

example : ofInt 3 = ofRatio false 3 1 ∧ ofInt 1 = .finite false (2 ^ 52) (-52) := by decide +kernel
example : ofInt? (2 ^ 1024) = none ∧ ofDecimal true 5 (-324) = .finite true 1 (-1074) := by
  decide +kernel

end Binary64

end ApiLint
