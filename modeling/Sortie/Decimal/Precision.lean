import Sortie.Decimal.Binary

/-!
# Rounding to decimal places
-/

namespace Sortie.Decimal

/-- Powers by repeated squaring: each bit of the exponent that is set multiplies the product by
the square reached there. -/
def squarings (product square : Float) : Nat → Nat → Float
  | 0, _ => product
  | bits + 1, n =>
    let product := if n % 2 = 1 then product * square else product
    if n / 2 = 0 then product else squarings product (square * square) bits (n / 2)

def power (base : Float) : Int → Float
  | .ofNat n => squarings 1.0 base 32 n
  | .negSucc n => 1.0 / squarings 1.0 base 32 (n + 1)

/-- A count of 32 bits read with a sign. -/
def asSigned (n : Nat) : Int :=
  (n : Int).bmod 4294967296

/-- `value` rounded to `precision` decimal places, a half away from zero. A precision whose
power of ten is out of range leaves no number. -/
def roundTo (value : Float) (precision : Nat) : Float :=
  let factor := power 10.0 (asSigned precision)
  roundToInteger (value * factor) / factor

end Sortie.Decimal
