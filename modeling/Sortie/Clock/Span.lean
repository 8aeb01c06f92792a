import Sortie.Decimal.Binary

/-!
# Spans of time

A span is whole seconds, of 64 bits, and nanoseconds below one second.
-/

namespace Sortie.Clock

structure Span where
  seconds : Nat
  nanos : Nat
  deriving DecidableEq, Repr, Inhabited

namespace Span

def nanosPerSecond : Nat := 1000000000

def limit : Nat := 18446744073709551616

def zero : Span := ⟨0, 0⟩

def ofNanos (n : Nat) : Span :=
  ⟨n / nanosPerSecond, n % nanosPerSecond⟩

def toNanos (d : Span) : Nat :=
  d.seconds * nanosPerSecond + d.nanos

def ofMillis (n : Nat) : Span :=
  ofNanos (n * 1000000)

def ofSeconds (n : Nat) : Span :=
  ⟨n, 0⟩

/-- Whole milliseconds below the second. -/
def millis (d : Span) : Nat :=
  d.nanos / 1000000

inductive Fault where
  | negative
  | tooLong
  | overflow
  deriving DecidableEq, Repr

def Fault.message : Fault → String
  | .negative => "cannot convert float seconds to Duration: value is negative"
  | .tooLong => "cannot convert float seconds to Duration: value is either too big or NaN"
  | .overflow => "overflow when adding durations"

/-- The sum, if its seconds still fit. -/
def add (a b : Span) : Except Fault Span :=
  let sum := ofNanos (a.toNanos + b.toNanos)
  if sum.seconds < limit then .ok sum else .error .overflow

/-- Seconds to the nearest nanosecond, a half to the even one. -/
def ofSecondsFloat (x : Float) : Except Fault Span :=
  match Decimal.classify x with
  | .undefined => .error .tooLong
  | .infinite negative => .error (if negative then .negative else .tooLong)
  | .finite b =>
    if b.negative ∧ b.mantissa ≠ 0 then .error .negative
    else
      let (num, den) := b.ratio
      let span := ofNanos (Decimal.roundEven (num * nanosPerSecond) den)
      if span.seconds < limit then .ok span else .error .tooLong

end Span

end Sortie.Clock
