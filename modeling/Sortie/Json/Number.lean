import Sortie.Json.Value
import Sortie.Text.Utf8

/-!
# Reading the numbers of a JSON text

Digits are gathered into a significand below `2 ^ 64`; those that no longer fit only move the
exponent. A whole number that fits stays whole. Any other is the significand multiplied or
divided by one power of ten, which rounds once more than reading the exact decimal would.
-/

namespace Sortie.Json

open Text (Bytes)

/-- Why a text cannot be read: it breaks the rules of JSON, it is not of the expected shape,
or it ends too early. -/
inductive Fault where
  | malformed
  | mismatched
  | truncated
  deriving DecidableEq, Repr

abbrev Reader := StateT Bytes (Except Fault)

def ascii (c : Char) : UInt8 :=
  UInt8.ofNat c.toNat

def digit? (b : UInt8) : Option Nat :=
  if 48 ≤ b.toNat ∧ b.toNat ≤ 57 then some (b.toNat - 48) else none

def startsWithDigit : Bytes → Bool
  | [] => false
  | b :: _ => (digit? b).isSome

/-- Appends digits to a significand while it stays below `limit`, and counts them. -/
def gather (limit : Nat) : Nat → Nat → Bytes → Nat × Nat × Bytes
  | n, count, [] => (n, count, [])
  | n, count, b :: r =>
    match digit? b with
    | none => (n, count, b :: r)
    | some d =>
      if n * 10 + d < limit then gather limit (n * 10 + d) (count + 1) r
      else (n, count, b :: r)

def dropDigits : Nat → Bytes → Nat × Bytes
  | count, [] => (count, [])
  | count, b :: r => if (digit? b).isSome then dropDigits (count + 1) r else (count, b :: r)

/-- The number `10 ^ k`, rounded once. -/
def tenTo (k : Nat) : Float :=
  Decimal.nearest false (Nat.pow 10 k) 1

/-- `f * 10 ^ exponent` in steps of at most `10 ^ 308`. -/
def scale : Nat → Float → Int → Except Fault Float
  | _, f, .ofNat e =>
    if 308 < e then (if f == 0 then .ok f else .error .malformed)
    else
      let y := f * tenTo e
      if y.isInf then .error .malformed else .ok y
  | 0, f, .negSucc _ => .ok f
  | fuel + 1, f, .negSucc e =>
    if e < 308 then .ok (f / tenTo (e + 1))
    else if f == 0 then .ok f
    else scale fuel (f / 1e308) (.negSucc e + 308)

def signedFloat (negative : Bool) (x : Float) : Float :=
  if negative then -x else x

/-- A significand below `2 ^ 64` is zero after four steps down. -/
def ofParts (negative : Bool) (n : Nat) (exponent : Int) (r : Bytes) :
    Except Fault (Json × Bytes) := do
  let x ← scale 8 (Decimal.nearest false n 1) exponent
  return (.number (signedFloat negative x), r)

/-- An exponent keeps to 32 bits. -/
def limitExponent (e : Int) : Int :=
  max (-2147483648) (min 2147483647 e)

def exponentDigits (negative : Bool) (n : Nat) (start : Int) (down : Bool) (r : Bytes) :
    Except Fault (Json × Bytes) :=
  match r with
  | [] => .error .truncated
  | b :: r =>
    match digit? b with
    | none => .error .malformed
    | some d =>
      let (e, _, rest) := gather 2147483648 d 0 r
      if startsWithDigit rest then
        if n ≠ 0 ∧ ¬ down then .error .malformed
        else .ok (.number (signedFloat negative 0.0), (dropDigits 0 rest).2)
      else ofParts negative n (limitExponent (if down then start - e else start + e)) rest

/-- What follows the letter `e`. -/
def exponentPart (negative : Bool) (n : Nat) (start : Int) : Bytes →
    Except Fault (Json × Bytes)
  | [] => .error .truncated
  | b :: r =>
    if b = ascii '+' then exponentDigits negative n start false r
    else if b = ascii '-' then exponentDigits negative n start true r
    else exponentDigits negative n start false (b :: r)

def isExponentMark (b : UInt8) : Bool :=
  b = ascii 'e' || b = ascii 'E'

/-- The end of a number with a fraction: an exponent or nothing. -/
def afterFraction (negative : Bool) (n : Nat) (exponent : Int) (r : Bytes) :
    Except Fault (Json × Bytes) :=
  match r with
  | [] => ofParts negative n exponent []
  | b :: r =>
    if isExponentMark b then exponentPart negative n exponent r
    else ofParts negative n exponent (b :: r)

/-- What follows the point. -/
def fractionPart (negative : Bool) (n : Nat) (start : Int) (r : Bytes) :
    Except Fault (Json × Bytes) :=
  let (n, count, rest) := gather 18446744073709551616 n 0 r
  if startsWithDigit rest then
    afterFraction negative n (start - count) (dropDigits 0 rest).2
  else if count = 0 then
    if rest.isEmpty then .error .truncated else .error .malformed
  else afterFraction negative n (start - count) rest

/-- A number without point and exponent. Minus zero and what needs more than 64 bits with its
sign are not kept whole. -/
def wholeNumber (negative : Bool) (n : Nat) : Json :=
  if ¬ negative then .int n
  else if n = 0 ∨ 9223372036854775808 < n then .number (-(Decimal.nearest false n 1))
  else .int (-n)

/-- What follows the whole part of a number whose digits all fitted. -/
def afterWhole (negative : Bool) (n : Nat) (r : Bytes) : Except Fault (Json × Bytes) :=
  match r with
  | [] => .ok (wholeNumber negative n, [])
  | b :: r =>
    if b = ascii '.' then fractionPart negative n 0 r
    else if isExponentMark b then exponentPart negative n 0 r
    else .ok (wholeNumber negative n, b :: r)

/-- What follows when the whole part has more digits than fit. -/
def afterLong (negative : Bool) (n : Nat) (r : Bytes) : Except Fault (Json × Bytes) :=
  let (count, rest) := dropDigits 0 r
  match rest with
  | [] => ofParts negative n count []
  | b :: r =>
    if b = ascii '.' then fractionPart negative n count r
    else if isExponentMark b then exponentPart negative n count r
    else ofParts negative n count (b :: r)

/-- A number after its minus sign, if it has one. -/
def unsignedNumber (negative : Bool) : Bytes → Except Fault (Json × Bytes)
  | [] => .error .truncated
  | b :: r =>
    match digit? b with
    | none => .error .malformed
    | some 0 => if startsWithDigit r then .error .malformed else afterWhole negative 0 r
    | some d =>
      let (n, _, rest) := gather 18446744073709551616 d 0 r
      if startsWithDigit rest then afterLong negative n rest else afterWhole negative n rest

/-- A number at the start of the text. -/
def readNumber : Reader Json := fun bytes =>
  match bytes with
  | [] => .error .truncated
  | b :: r => if b = ascii '-' then unsignedNumber true r else unsignedNumber false (b :: r)

/-! ## Passing over a number -/

def skipExponent (bytes : Bytes) : Except Fault Bytes :=
  let digits := match bytes with
    | [] => []
    | b :: r => if b = ascii '+' ∨ b = ascii '-' then r else b :: r
  if startsWithDigit digits then .ok (dropDigits 0 digits).2 else .error .malformed

def skipAfterWhole : Bytes → Except Fault Bytes
  | [] => .ok []
  | b :: r =>
    if b = ascii '.' then
      if ¬ startsWithDigit r then .error .malformed
      else match (dropDigits 0 r).2 with
        | [] => .ok []
        | e :: r => if isExponentMark e then skipExponent r else .ok (e :: r)
    else if isExponentMark b then skipExponent r
    else .ok (b :: r)

def skipUnsigned : Bytes → Except Fault Bytes
  | [] => .error .malformed
  | b :: r =>
    match digit? b with
    | none => .error .malformed
    | some 0 => if startsWithDigit r then .error .malformed else skipAfterWhole r
    | some _ => skipAfterWhole (dropDigits 0 r).2

/-- Passes over a number without asking for its value. -/
def skipNumber : Reader Unit := fun bytes => do
  let rest ← match bytes with
    | [] => .error .truncated
    | b :: r => if b = ascii '-' then skipUnsigned r else skipUnsigned (b :: r)
  return ((), rest)

end Sortie.Json
