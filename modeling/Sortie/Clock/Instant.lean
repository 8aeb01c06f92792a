import Sortie.Decimal.Layout
import Sortie.Decimal.Numeral
import Sortie.Text.Blank

/-!
# Points in time

An instant counts seconds from the start of 1970 in universal time. It is written as a date
and a time of day and read from a laxer form of the same, with any offset.
-/

namespace Sortie.Clock

/-- In a leap second `nanos` is `10 ^ 9` or more. -/
structure Instant where
  seconds : Int
  nanos : Nat
  deriving DecidableEq, Repr, Inhabited

structure Date where
  year : Int
  month : Nat
  day : Nat
  deriving DecidableEq, Repr

def isLeap (year : Int) : Bool :=
  year % 4 = 0 && (year % 100 != 0 || year % 400 = 0)

def daysInMonth (year : Int) (month : Nat) : Nat :=
  if month = 2 then (if isLeap year then 29 else 28)
  else if month = 4 ∨ month = 6 ∨ month = 9 ∨ month = 11 then 30
  else 31

/-- Days from the start of 1970. Years are counted from March, so that a leap day comes last. -/
def Date.dayNumber (d : Date) : Int :=
  let y := if d.month ≤ 2 then d.year - 1 else d.year
  let era := y / 400
  let yearOfEra := y % 400
  let monthFromMarch : Int := (d.month + 9) % 12
  let dayOfYear := (153 * monthFromMarch + 2) / 5 + d.day - 1
  let dayOfEra := yearOfEra * 365 + yearOfEra / 4 - yearOfEra / 100 + dayOfYear
  era * 146097 + dayOfEra - 719468

def Date.ofDayNumber (n : Int) : Date :=
  let z := n + 719468
  let era := z / 146097
  let dayOfEra := z % 146097
  let yearOfEra := (dayOfEra - dayOfEra / 1460 + dayOfEra / 36524 - dayOfEra / 146096) / 365
  let dayOfYear := dayOfEra - (365 * yearOfEra + yearOfEra / 4 - yearOfEra / 100)
  let monthFromMarch := (5 * dayOfYear + 2) / 153
  let day := dayOfYear - (153 * monthFromMarch + 2) / 5 + 1
  let month := if monthFromMarch < 10 then monthFromMarch + 3 else monthFromMarch - 9
  ⟨yearOfEra + era * 400 + (if month ≤ 2 then 1 else 0), month.toNat, day.toNat⟩

/-- The years that a date may have. -/
def yearAllowed (year : Int) : Bool :=
  -262143 ≤ year && year ≤ 262142

def Date.isValid (d : Date) : Bool :=
  yearAllowed d.year && 1 ≤ d.month && d.month ≤ 12 && 1 ≤ d.day
    && d.day ≤ daysInMonth d.year d.month

def padded (width n : Nat) : List Char :=
  let digits := Decimal.natural n
  List.replicate (width - digits.length) '0' ++ digits

/-- Four digits, or a sign and at least four outside `0 … 9999`. -/
def yearText (year : Int) : List Char :=
  if 0 ≤ year ∧ year ≤ 9999 then padded 4 year.toNat
  else (if year < 0 then '-' else '+') :: padded 4 year.natAbs

/-- Three, six or nine places, as few as show all, and none for a whole second. -/
def fractionText (nanos : Nat) : List Char :=
  if nanos = 0 then []
  else if nanos % 1000000 = 0 then '.' :: padded 3 (nanos / 1000000)
  else if nanos % 1000 = 0 then '.' :: padded 6 (nanos / 1000)
  else '.' :: padded 9 nanos

def Instant.text (t : Instant) : List Char :=
  let date := Date.ofDayNumber (t.seconds / 86400)
  let inDay := (t.seconds % 86400).toNat
  let leap := 1000000000 ≤ t.nanos
  let second := inDay % 60 + (if leap then 1 else 0)
  let nanos := if leap then t.nanos - 1000000000 else t.nanos
  yearText date.year ++ '-' :: padded 2 date.month ++ '-' :: padded 2 date.day
    ++ 'T' :: padded 2 (inDay / 3600) ++ ':' :: padded 2 (inDay / 60 % 60)
    ++ ':' :: padded 2 second ++ fractionText nanos ++ ['Z']

/-! ## Reading -/

def dropBlanks (cs : List Char) : List Char :=
  cs.dropWhile Text.isBlank

/-- At least one and at most `width` digits after blanks. -/
def digits? (width : Nat) (cs : List Char) : Option (Nat × List Char) :=
  let digits := (cs.take width).takeWhile Char.isDigit
  if digits.isEmpty then none else some (Decimal.valueOf digits, cs.drop digits.length)

def number? (width : Nat) (cs : List Char) : Option (Nat × List Char) :=
  digits? width (dropBlanks cs)

/-- Digits behind a sign may be as many as there are. -/
def year? (cs : List Char) : Option (Int × List Char) :=
  match dropBlanks cs with
  | '-' :: r => (digits? r.length r).map fun (n, rest) => (-(n : Int), rest)
  | '+' :: r => (digits? r.length r).map fun (n, rest) => ((n : Int), rest)
  | r => (digits? 4 r).map fun (n, rest) => ((n : Int), rest)

def separator? (c : Char) (cs : List Char) : Option (List Char) :=
  match dropBlanks cs with
  | d :: r => if d = c then some r else none
  | [] => none

/-- A fraction of a second in nanoseconds; places past the ninth are dropped. -/
def fraction? : List Char → Option (Nat × List Char)
  | '.' :: r =>
    (digits? 9 r).map fun (n, rest) =>
      (n * Nat.pow 10 (9 - (r.length - rest.length)), rest.dropWhile Char.isDigit)
  | r => some (0, r)

/-- An offset of hours and minutes behind its sign, in seconds. -/
def offsetSize? (cs : List Char) : Option (Nat × List Char) :=
  match cs with
  | a :: b :: r =>
    if a.isDigit ∧ b.isDigit then
      match r.dropWhile (fun c => c = ':' || Text.isBlank c) with
      | c :: d :: r =>
        if c.isDigit ∧ d.isDigit ∧ Decimal.digitValue c < 6 then
          some (Decimal.valueOf [a, b] * 3600 + Decimal.valueOf [c, d] * 60, r)
        else none
      | _ => none
    else none
  | _ => none

/-- The distance from universal time in seconds: none, or less than a day either way. -/
def offset? (cs : List Char) : Option (Int × List Char) :=
  let other : Option (Int × List Char) := match cs with
    | [] => none
    | c :: r =>
      if c = 'Z' ∨ c = 'z' then some (0, r)
      else if c = '+' then (offsetSize? r).map fun (n, rest) => ((n : Int), rest)
      else if c = '-' ∨ c = '−' then (offsetSize? r).map fun (n, rest) => (-(n : Int), rest)
      else none
  if (cs.take 3).map Char.toUpper = ['U', 'T', 'C'] then some (0, cs.drop 3) else other

/-- A date, one of `T`, `t` and a blank, a time and an offset. -/
def Instant.ofText? (cs : List Char) : Option Instant := do
  let (year, cs) ← year? cs
  let (month, cs) ← number? 2 (← separator? '-' cs)
  let (day, cs) ← number? 2 (← separator? '-' cs)
  let date : Date := ⟨year, month, day⟩
  guard date.isValid
  let cs ← match cs with
    | c :: r => if c = 'T' ∨ c = 't' ∨ c = ' ' then some r else none
    | [] => none
  let (hour, cs) ← number? 2 cs
  let (minute, cs) ← number? 2 (← separator? ':' cs)
  let (second, cs) ← number? 2 (← separator? ':' cs)
  guard (hour < 24 ∧ minute < 60 ∧ second ≤ 60)
  let (nanos, cs) ← fraction? cs
  let (offset, cs) ← offset? (dropBlanks cs)
  guard ((dropBlanks cs).isEmpty ∧ offset.natAbs < 86400)
  let leap := second = 60
  let inDay : Int := hour * 3600 + minute * 60 + (if leap then 59 else second)
  let seconds := date.dayNumber * 86400 + inDay - offset
  guard (yearAllowed (Date.ofDayNumber (seconds / 86400)).year)
  return ⟨seconds, if leap then nanos + 1000000000 else nanos⟩

end Sortie.Clock
