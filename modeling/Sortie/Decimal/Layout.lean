import Sortie.Decimal.Shortest

/-!
# Written numbers

Two ways to write a number exactly, one with places only and one that turns to an exponent
for very large and very small values, and one way to write it to six places.
-/

namespace Sortie.Decimal

def natural (n : Nat) : List Char :=
  Nat.toDigits 10 n

def integer : Int → List Char
  | .ofNat n => natural n
  | .negSucc n => '-' :: natural (n + 1)

def signed (negative : Bool) (text : List Char) : List Char :=
  if negative then '-' :: text else text

/-- All places of `digits * 10 ^ exponent`, with a point only where there is a fraction. -/
def places (digits : List Char) (exponent : Int) : List Char :=
  match exponent with
  | .ofNat e => digits ++ List.replicate e '0'
  | .negSucc e =>
    let after := e + 1
    if after < digits.length then
      digits.take (digits.length - after) ++ '.' :: digits.drop (digits.length - after)
    else '0' :: '.' :: (List.replicate (after - digits.length) '0' ++ digits)

/-- The fewest digits that read back, never with an exponent. -/
def positional (x : Float) : List Char :=
  match classify x with
  | .undefined => ['N', 'a', 'N']
  | .infinite negative => signed negative ['i', 'n', 'f']
  | .finite b =>
    if b.mantissa = 0 then signed b.negative ['0']
    else
      let d := b.shortest .up
      signed b.negative (places (natural d.digits) d.exponent)

/-- One digit before the point and the rest after it, then the power of ten with its sign. -/
def exponential (digits : List Char) (power : Int) : List Char :=
  let mantissa := match digits with
    | [] => []
    | [d] => [d]
    | d :: ds => d :: '.' :: ds
  match power with
  | .ofNat e => mantissa ++ 'e' :: '+' :: natural e
  | .negSucc e => mantissa ++ 'e' :: '-' :: natural (e + 1)

/-- The fewest digits that read back, with a fraction or an exponent always; from `1e-5` up to
below `1e16` in places. A number that is not finite has no such form. -/
def fractional? (x : Float) : Option (List Char) :=
  match classify x with
  | .undefined | .infinite _ => none
  | .finite b =>
    if b.mantissa = 0 then some (signed b.negative ['0', '.', '0'])
    else
      let d := b.shortest .even
      let digits := natural d.digits
      let power : Int := d.exponent + digits.length - 1
      let text :=
        if power < -5 ∨ 16 ≤ power then exponential digits power
        else match d.exponent with
          | .ofNat _ => places digits d.exponent ++ ['.', '0']
          | .negSucc _ => places digits d.exponent
      some (signed b.negative text)

/-- Six places of the exact value, a half to the even neighbour. Zero has no sign. -/
def sixPlaces (x : Float) : List Char :=
  match classify x with
  | .undefined => ['N', 'a', 'N']
  | .infinite negative => signed negative ['i', 'n', 'f']
  | .finite b =>
    let (num, den) := b.ratio
    let n := roundEven (num * 1000000) den
    let after := natural (n % 1000000)
    let text := natural (n / 1000000) ++ '.' :: (List.replicate (6 - after.length) '0' ++ after)
    signed (b.negative && n != 0) text

end Sortie.Decimal
