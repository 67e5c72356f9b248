/-!
# Double-precision magnitudes

The finite doubles without their sign, as exact numbers: a significand below 2^53 times a power of two from 2^-1074 to 2^971. All arithmetic is exact on natural numbers and rounds once at the end, to the nearest magnitude and to the even significand on a tie, so a result too large for a double shows as `none` and there is no infinity.
-/

namespace RevisionForest.Decimal

/-- The value is `significand · 2 ^ exponent`. -/
structure Magnitude where
  significand : Nat
  exponent : Int
  deriving DecidableEq, Repr

/-- The quotient rounded to the nearest number, a half to the even one. -/
def roundDiv (numerator denominator : Nat) : Nat :=
  let quotient := numerator / denominator
  let remainder := numerator % denominator
  if denominator < 2 * remainder ∨ (denominator = 2 * remainder ∧ quotient % 2 = 1) then quotient + 1
  else quotient

/-- The largest `e` with `2 ^ e ≤ numerator / denominator`, for positive numbers. -/
def floorLog2 (numerator denominator : Nat) : Int :=
  let e : Int := (numerator.log2 : Int) - denominator.log2
  if denominator * Nat.pow 2 e.toNat ≤ numerator * Nat.pow 2 (-e).toNat then e else e - 1

namespace Magnitude

/-- The exponent of the subnormal magnitudes. -/
def leastExponent : Int := -1074

def greatestExponent : Int := 971

def zero : Magnitude := ⟨0, leastExponent⟩

/-- The magnitude nearest to a quotient, if it is not too large. -/
def ofQuotient? (numerator denominator : Nat) : Option Magnitude :=
  if numerator = 0 then
    some zero
  else
    let exponent := max (floorLog2 numerator denominator - 52) leastExponent
    let significand := roundDiv (numerator * Nat.pow 2 (-exponent).toNat) (denominator * Nat.pow 2 exponent.toNat)
    let rounded : Magnitude :=
      if significand = Nat.pow 2 53 then ⟨Nat.pow 2 52, exponent + 1⟩ else ⟨significand, exponent⟩
    if greatestExponent < rounded.exponent then none else some rounded

/-- The magnitude nearest to a natural number below 2^64. -/
def ofNat (n : Nat) : Magnitude :=
  (ofQuotient? n 1).getD zero

/-- The product, rounded once. -/
def mul? (left right : Magnitude) : Option Magnitude :=
  let exponent := left.exponent + right.exponent
  ofQuotient? (left.significand * right.significand * Nat.pow 2 exponent.toNat) (Nat.pow 2 (-exponent).toNat)

/-- The quotient, rounded once. -/
def div? (left right : Magnitude) : Option Magnitude :=
  let exponent := left.exponent - right.exponent
  ofQuotient? (left.significand * Nat.pow 2 exponent.toNat) (right.significand * Nat.pow 2 (-exponent).toNat)

/-- The magnitude nearest to a power of ten, for exponents up to 308. -/
def powerOfTen (n : Nat) : Magnitude :=
  (ofQuotient? (Nat.pow 10 n) 1).getD zero

/-- Move the decimal point: one rounded multiplication or division by a power of ten, after divisions by 10^308 while the exponent is out of its reach. -/
def scaleTen? (value : Magnitude) (exponent : Int) : Option Magnitude :=
  if 0 ≤ exponent ∧ exponent ≤ 308 then
    value.mul? (powerOfTen exponent.toNat)
  else if -308 ≤ exponent ∧ exponent < 0 then
    value.div? (powerOfTen exponent.natAbs)
  else if value.significand = 0 then
    some value
  else if 0 ≤ exponent then
    none
  else
    (value.div? (powerOfTen 308)).bind fun smaller => smaller.scaleTen? (exponent + 308)
termination_by exponent.natAbs

end Magnitude

end RevisionForest.Decimal
