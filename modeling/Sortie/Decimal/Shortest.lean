import Sortie.Decimal.Binary

/-!
# The fewest digits that read back

Every real number between two neighbouring midpoints reads as the same `Float`. `shortest`
looks for a decimal in that range with one digit, then with two, and so on; seventeen are
always enough. On each grid only the two neighbours of the exact value need to be tried.
-/

namespace Sortie

/-- `digits * 10 ^ exponent`. -/
structure Decimal where
  digits : Nat
  exponent : Int
  deriving DecidableEq, Repr

namespace Decimal

/-- Which of two equally near decimals is written. -/
inductive Tie where
  | up
  | even
  deriving DecidableEq, Repr

/-- `10 ^ e` as a numerator and a denominator. -/
def powerOfTen : Int → Nat × Nat
  | .ofNat e => (Nat.pow 10 e, 1)
  | .negSucc e => (1, Nat.pow 10 (e + 1))

/-- The reals that read as one number, over a common denominator. The ends belong to the range
when the number has an even mantissa. -/
structure Range where
  low : Nat
  value : Nat
  high : Nat
  den : Nat
  closed : Bool
  deriving DecidableEq, Repr

/-- The range of a positive number. Below a power of two the neighbours lie twice as near. -/
def Binary.range (b : Binary) : Range :=
  let (up, down) := powerOfTwo b.exponent
  let below := if b.mantissa = Nat.pow 2 52 ∧ b.exponent ≠ -1074 then 1 else 2
  { low := (4 * b.mantissa - below) * up
    value := 4 * b.mantissa * up
    high := (4 * b.mantissa + 2) * up
    den := 4 * down
    closed := b.mantissa % 2 = 0 }

/-- Whether `digits * 10 ^ exponent` lies in the range. -/
def Range.holds (r : Range) (d : Decimal) : Bool :=
  let (up, down) := powerOfTen d.exponent
  let x := d.digits * up * r.den
  let low := r.low * down
  let high := r.high * down
  if r.closed then low ≤ x && x ≤ high else low < x && x < high

/-- The largest `k` with `10 ^ k` not above the value, within `tries` of a first guess. -/
def Range.decade (r : Range) : Nat → Int → Int
  | 0, k => k
  | tries + 1, k =>
    let (up, down) := powerOfTen (k + 1)
    if up * r.den ≤ r.value * down then r.decade tries (k + 1) else k

def Range.leading (r : Range) : Int :=
  r.decade 4 ((((r.value.log2 : Int) - r.den.log2 - 1) * 30103) / 100000 - 1)

/-- The nearer of the two neighbours of the value on the grid of `10 ^ k` that lie in the
range. -/
def Range.onGrid (r : Range) (tie : Tie) (k : Int) : Option Decimal :=
  let (up, down) := powerOfTen k
  let q := r.value * down / (r.den * up)
  let twice := 2 * (r.value * down % (r.den * up))
  let below : Decimal := ⟨q, k⟩
  let above : Decimal := ⟨q + 1, k⟩
  match r.holds below, r.holds above with
  | false, false => none
  | true, false => some below
  | false, true => some above
  | true, true =>
    if twice < r.den * up then some below
    else if r.den * up < twice then some above
    else match tie with
      | .up => some above
      | .even => some (if q % 2 = 0 then below else above)

def Range.search (r : Range) (tie : Tie) : Nat → Int → Option Decimal
  | 0, _ => none
  | more + 1, k =>
    match r.onGrid tie k with
    | some d => some d
    | none => r.search tie more (k - 1)

/-- Zeros at the end moved into the exponent, at most `tries` of them. -/
def trim : Nat → Decimal → Decimal
  | 0, d => d
  | tries + 1, d =>
    if d.digits % 10 = 0 then trim tries ⟨d.digits / 10, d.exponent + 1⟩ else d

/-- The fewest digits that read back as the positive number `b`, the nearest such; should
none of seventeen digits do, the exact value. -/
def Binary.shortest (tie : Tie) (b : Binary) : Decimal :=
  let r := b.range
  match r.search tie 17 r.leading with
  | some d => d.trim 17
  | none =>
    match b.exponent with
    | .ofNat e => ⟨b.mantissa * Nat.pow 2 e, 0⟩
    | .negSucc e => ⟨b.mantissa * Nat.pow 5 (e + 1), .negSucc e⟩

end Decimal

end Sortie
