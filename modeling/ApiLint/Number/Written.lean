import ApiLint.Number.Shortest

/-!
# The written form of numbers

How a number appears in messages and keys. A binary64 number is written with its shortest digits, in
positional form as long as its leading digit stands between the fourth decimal place and the
sixteenth place before the point, and with an exponent otherwise.
-/

namespace ApiLint

/-- The choices of a written form of binary64 numbers. -/
structure NumberStyle where
  /-- The least exponent of the leading digit written positionally. -/
  positionalFrom : Int
  /-- The least exponent of the leading digit above those written positionally. -/
  positionalTo : Int
  /-- The least count of digits of a written exponent. -/
  exponentWidth : Nat
  infinity : String
  nan : String

/-- Positional from `0.0001` to below `1e+16`, and two digits of exponent at least. -/
def NumberStyle.plain : NumberStyle := ⟨-4, 16, 2, "inf", "nan"⟩

namespace Binary64

/-- The decimal digits of a natural. -/
def digitsOf (n : Nat) : List Char := Nat.toDigits 10 n

/-- The characters, with zeros in front up to the width. -/
def zeroPadded (width : Nat) (cs : List Char) : List Char :=
  List.replicate (width - cs.length) '0' ++ cs

/-- `coefficient · 10 ^ p` in positional form, with at least one digit on both sides of the
point. -/
def positional (digits : List Char) (p : Int) : List Char :=
  let whole := digits.length + p
  if 0 ≤ p then digits ++ List.replicate p.toNat '0' ++ ['.', '0']
  else if 0 < whole then digits.take whole.toNat ++ '.' :: digits.drop whole.toNat
  else '0' :: '.' :: List.replicate (-whole).toNat '0' ++ digits

/-- One digit before the point, the others behind it, and the exponent of the first with its
sign. -/
def scientific (style : NumberStyle) (digits : List Char) (order : Int) : List Char :=
  let fraction := match digits.tail with
    | [] => []
    | rest => '.' :: rest
  let exponent := zeroPadded style.exponentWidth (digitsOf order.natAbs)
  digits.take 1 ++ fraction ++ 'e' :: (if order < 0 then '-' else '+') :: exponent

/-- The written form of a number. -/
def writtenWith (style : NumberStyle) : Binary64 → String
  | .nan => style.nan
  | .infinite negative => (if negative then "-" else "") ++ style.infinity
  | .finite negative m e =>
    let (c, p) := shortest m e
    let digits := digitsOf c
    let order := digits.length + p - 1
    let body :=
      if style.positionalFrom ≤ order ∧ order < style.positionalTo then positional digits p
      else scientific style digits order
    (if negative then "-" else "") ++ String.ofList body

/-- The written form of a number in the plain style. -/
def written (x : Binary64) : String := x.writtenWith .plain

example : (ofInt 2).written = "2.0" ∧ (ofDecimal true 15 (-8)).written = "-1.5e-07" := by
  decide +kernel
example : (ofDecimal false 1 (-4)).written = "0.0001" ∧ (ofDecimal false 1 16).written = "1e+16" := by
  decide +kernel

end Binary64

/-- The decimal text of an integer. -/
def writtenInt (n : Int) : String :=
  String.ofList (if n < 0 then '-' :: Binary64.digitsOf n.natAbs else Binary64.digitsOf n.natAbs)

end ApiLint
