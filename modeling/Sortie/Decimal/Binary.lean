/-!
# Numbers of 64 bits taken apart

A finite `Float` is `± mantissa * 2 ^ exponent`. The functions here move between a `Float`
and that exact value, and round it to an integer in the ways the rest of the library needs.
-/

namespace Sortie.Decimal

/-- The exact value `mantissa * 2 ^ exponent`, negated if `negative`. -/
structure Binary where
  negative : Bool
  mantissa : Nat
  exponent : Int
  deriving DecidableEq, Repr

inductive Class where
  | finite (value : Binary)
  | infinite (negative : Bool)
  | undefined
  deriving DecidableEq, Repr

def classify (x : Float) : Class :=
  let bits := x.toBits.toNat
  let negative := decide (Nat.pow 2 63 ≤ bits)
  let scale : Nat := bits / Nat.pow 2 52 % Nat.pow 2 11
  let fraction : Nat := bits % Nat.pow 2 52
  if scale = 2047 then
    if fraction = 0 then .infinite negative else .undefined
  else if scale = 0 then .finite ⟨negative, fraction, -1074⟩
  else .finite ⟨negative, fraction + Nat.pow 2 52, (scale : Int) - 1075⟩

/-- `2 ^ e` as a numerator and a denominator. -/
def powerOfTwo : Int → Nat × Nat
  | .ofNat e => (Nat.pow 2 e, 1)
  | .negSucc e => (1, Nat.pow 2 (e + 1))

/-- The size of a finite value as a numerator and a denominator. -/
def Binary.ratio (b : Binary) : Nat × Nat :=
  let (up, down) := powerOfTwo b.exponent
  (b.mantissa * up, down)

/-- The quotient rounded to the nearest integer, a half to the even neighbour. -/
def roundEven (num den : Nat) : Nat :=
  let q := num / den
  let twice := 2 * (num % den)
  if twice < den then q
  else if den < twice then q + 1
  else q + q % 2

/-- The quotient rounded to the nearest integer, a half away from zero. -/
def roundAway (num den : Nat) : Nat :=
  (2 * num + den) / (2 * den)

/-- The exponent of the last place of the number nearest to `num / den`: 53 places, and
never below the smallest one there is. -/
def lastPlace (num den : Nat) : Int :=
  let guess : Int := (num.log2 : Int) - den.log2 - 53
  let (up, down) := powerOfTwo guess
  let exact := if num * down < Nat.pow 2 53 * (den * up) then guess else guess + 1
  max exact (-1074)

/-- The bits of the non-negative number nearest to `num / den`, a half to the even one.
Values past the largest number become infinity. -/
def nearestBits (num den : Nat) : Nat :=
  let place := lastPlace num den
  let (up, down) := powerOfTwo place
  let bits := (place + 1074).toNat * Nat.pow 2 52 + roundEven (num * down) (den * up)
  min bits (2047 * Nat.pow 2 52)

def nearest (negative : Bool) (num den : Nat) : Float :=
  let bits := if num = 0 then 0 else nearestBits num den
  Float.ofBits (UInt64.ofNat (if negative then Nat.pow 2 63 + bits else bits))

/-- The nearest integer, a half away from zero; the sign of zero is kept. -/
def roundToInteger (x : Float) : Float :=
  match classify x with
  | .finite b =>
    let (num, den) := b.ratio
    if den = 1 then x else nearest b.negative (roundAway num den) 1
  | _ => x

/-- The part before the point, limited to `low … high`; zero when there is none. -/
def toIntWithin (low high : Int) (x : Float) : Int :=
  match classify x with
  | .finite b =>
    let (num, den) := b.ratio
    let size : Int := num / den
    max low (min high (if b.negative then -size else size))
  | .infinite negative => if negative then low else high
  | .undefined => 0

/-- The part before the point, limited to `0 … high`. -/
def toNatUpTo (high : Nat) (x : Float) : Nat :=
  (toIntWithin 0 high x).toNat

/-- A count as a number. -/
def ofNat (n : Nat) : Float :=
  nearest false n 1

/-- The remainder of the exact division by `n`, with the sign of `x`. -/
def remainder (x : Float) (n : Nat) : Float :=
  match classify x with
  | .finite b =>
    let (num, den) := b.ratio
    nearest b.negative (num % (n * den)) den
  | _ => 0.0 / 0.0

/-- `x` turned into `0 … n` by whole multiples of `n`. -/
def wrap (x : Float) (n : Nat) : Float :=
  let r := remainder x n
  if r < 0 then r + Float.ofNat n else r

end Sortie.Decimal
