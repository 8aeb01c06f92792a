import Sortie.Decimal.Shortest

/-!
# Reading numbers

A numeral is digits with at most one point among or beside them and perhaps an exponent. It
reads as the nearest number. Whole numbers with a bound take no point and no minus sign.
-/

namespace Sortie.Decimal

def digitValue (c : Char) : Nat :=
  c.toNat - '0'.toNat

def valueOf (digits : List Char) : Nat :=
  digits.foldl (fun n c => 10 * n + digitValue c) 0

/-- The number nearest to a decimal. Far outside the range of the type no power is computed:
with `digits < 10 ^ count`, such a value is zero or infinite. -/
def toFloat (negative : Bool) (d : Decimal) : Float :=
  let count : Int := (Nat.toDigits 10 d.digits).length
  if d.digits = 0 ∨ count + d.exponent < -330 then nearest negative 0 1
  else if 310 < count + d.exponent then nearest negative (Nat.pow 10 310) 1
  else
    let (up, down) := powerOfTen d.exponent
    nearest negative (d.digits * up) down

/-- The exponent part of a numeral: a sign at most, then digits to the end. -/
def exponent? (cs : List Char) : Option Int :=
  let (negative, digits) := match cs with
    | '-' :: r => (true, r)
    | '+' :: r => (false, r)
    | r => (false, r)
  if digits.isEmpty ∨ ¬ digits.all Char.isDigit then none
  else some (if negative then -(valueOf digits : Int) else valueOf digits)

/-- What follows the digits: nothing, or the letter `e` and an exponent. -/
def power? : List Char → Option Int
  | [] => some 0
  | c :: r => if c = 'e' ∨ c = 'E' then exponent? r else none

def numeral? (cs : List Char) : Option Decimal :=
  let whole := cs.takeWhile Char.isDigit
  let (fraction, rest) := match cs.dropWhile Char.isDigit with
    | '.' :: r => (r.takeWhile Char.isDigit, r.dropWhile Char.isDigit)
    | r => ([], r)
  if whole.isEmpty ∧ fraction.isEmpty then none
  else (power? rest).map fun power =>
    ⟨valueOf (whole ++ fraction), power - fraction.length⟩

def splitSign : List Char → Bool × List Char
  | '-' :: r => (true, r)
  | '+' :: r => (false, r)
  | r => (false, r)

def infinity (negative : Bool) : Float :=
  if negative then -1.0 / 0.0 else 1.0 / 0.0

/-- A number of any kind: a numeral, an infinity or the undefined value, with a sign at most. -/
def float? (cs : List Char) : Option Float :=
  let (negative, body) := splitSign cs
  match numeral? body with
  | some d => some (d.toFloat negative)
  | none =>
    let word := body.map Char.toLower
    if word = ['i', 'n', 'f'] ∨ word = ['i', 'n', 'f', 'i', 'n', 'i', 't', 'y'] then
      some (infinity negative)
    else if word = ['n', 'a', 'n'] then some (0.0 / 0.0)
    else none

/-- A whole number of at most `bound`; a plus sign may stand before it. -/
def bounded? (bound : Nat) (cs : List Char) : Option Nat :=
  let digits := match cs with
    | '+' :: r => r
    | r => r
  if digits.isEmpty ∨ ¬ digits.all Char.isDigit then none
  else if valueOf digits ≤ bound then some (valueOf digits) else none

end Sortie.Decimal
