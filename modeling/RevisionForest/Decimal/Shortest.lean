import RevisionForest.Decimal.Binary64

/-!
# The shortest decimal of a magnitude

Of all decimals that round to a given magnitude the ones with the fewest digits are taken, and of these the nearest. A decimal rounds to the magnitude when it lies between the midpoints to its two neighbours; the midpoints themselves count when the significand is even. The search goes from coarse powers of ten to fine ones: if some multiple of a power of ten lies in the interval, one of the two multiples next to the magnitude does, so only these are tested.
-/

namespace RevisionForest.Decimal

/-- The value is `coefficient · 10 ^ exponent`. -/
structure Digits where
  coefficient : Nat
  exponent : Int
  deriving DecidableEq, Repr

namespace Magnitude

/-- The ends of the rounding interval and the magnitude itself, in quarters of its last binary place. -/
def interval (value : Magnitude) : Nat × Nat × Nat :=
  let middle := 4 * value.significand
  let below := if value.significand = Nat.pow 2 52 ∧ leastExponent < value.exponent then 1 else 2
  (middle - below, middle, middle + 2)

/-- The multiple of `10 ^ place` that stands for the magnitude, if one of those next to it lies in its rounding interval. -/
def onGrid? (value : Magnitude) (place : Int) : Option Nat :=
  let quarter := value.exponent - 2
  let up := Nat.pow 2 quarter.toNat * Nat.pow 10 (-place).toNat
  let down := Nat.pow 2 (-quarter).toNat * Nat.pow 10 place.toNat
  let (low, middle, high) := value.interval
  let inside (k : Nat) : Bool :=
    if value.significand % 2 = 0 then low * up ≤ k * down && k * down ≤ high * up
    else low * up < k * down && k * down < high * up
  let under := middle * up / down
  match inside under, inside (under + 1) with
  | true, true => some (roundDiv (middle * up) down)
  | true, false => some under
  | false, true => some (under + 1)
  | false, false => none

/-- A power of ten that no decimal of the magnitude needs to exceed. -/
def topPlace (value : Magnitude) : Int :=
  (value.significand.log2 + value.exponent + 1) * 30103 / 100000 + 1

/-- The shortest decimal that rounds to a positive magnitude; seventeen digits are always enough. -/
def shortest (value : Magnitude) : Digits :=
  let places := (List.range 20).map fun (i : Nat) => value.topPlace - i
  (places.findSome? fun place => (value.onGrid? place).map fun k => ⟨k, place⟩).getD ⟨0, 0⟩

end Magnitude

/-! ### Layout -/

/-- How decimals are laid out. -/
structure Layout where
  /-- The exponents of the first digit from which on, and up to which, all digits are written out. -/
  lowestPlain : Int
  highestPlain : Int

def zeros (n : Nat) : List Char := List.replicate n '0'

/-- A positive decimal, always with a point or an exponent; exponents have a sign. -/
def Layout.write (layout : Layout) (value : Digits) : List Char :=
  let digits := Nat.toDigits 10 value.coefficient
  let leading := value.exponent + digits.length - 1
  if layout.lowestPlain ≤ leading ∧ leading ≤ layout.highestPlain then
    if 0 ≤ value.exponent then
      digits ++ zeros value.exponent.toNat ++ ['.', '0']
    else if 0 ≤ leading then
      digits.take (leading.toNat + 1) ++ '.' :: digits.drop (leading.toNat + 1)
    else
      '0' :: '.' :: zeros (leading.natAbs - 1) ++ digits
  else
    let fraction := if digits.length = 1 then [] else '.' :: digits.drop 1
    digits.take 1 ++ fraction ++ 'e' :: (if leading < 0 then '-' else '+') :: Nat.toDigits 10 leading.natAbs

end RevisionForest.Decimal
