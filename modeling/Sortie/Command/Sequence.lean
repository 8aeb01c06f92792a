import Sortie.Command.Item

/-!
# Command sequences

The aircraft reports its progress as the index of the latest command executed. What that says
of waypoints and of the way home is read off the sequence here. The body of a sequence is what
comes before the first return to launch.
-/

namespace Sortie

abbrev Sequence := List Command

namespace Sequence

def toItems (s : Sequence) : List Item :=
  s.map Command.toItem

def ofItems (is : List Item) : Except CommandFault Sequence :=
  is.mapM Command.ofItem

def waypointCount (s : Sequence) : Nat :=
  s.countP Command.isWaypoint

/-- The frame of the first waypoint. -/
def frame? (s : Sequence) : Option Frame :=
  s.findSome? fun
    | .waypoint _ _ _ _ frame => some frame
    | _ => none

def returnIndex? (s : Sequence) : Option Nat :=
  s.findIdx? Command.isReturn

def hasReturn (s : Sequence) : Bool :=
  s.returnIndex?.isSome

def body (s : Sequence) : Sequence :=
  s.takeWhile (!·.isReturn)

/-- `n - 1`, if there is one. -/
def before? : Nat → Option Nat
  | 0 => none
  | n + 1 => some n

/-- The index of the last command of the body. -/
def lastBodyIndex? (s : Sequence) : Option Nat :=
  before? s.body.length

def firstWaypointIndex? (s : Sequence) : Option Nat :=
  s.body.findIdx? Command.isWaypoint

def lastWaypointIndex? (s : Sequence) : Option Nat :=
  (s.body.reverse.findIdx? Command.isWaypoint).map (s.body.length - 1 - ·)

/-- How many waypoints are among the commands up to `latest`. -/
def waypointsUpTo (s : Sequence) (latest : Nat) : Nat :=
  waypointCount (s.take (latest + 1))

/-- Which waypoint was the last to be passed. -/
def lastPassed? (s : Sequence) (latest : Nat) : Option Nat :=
  before? (s.waypointsUpTo latest)

def reachedFirst (s : Sequence) (latest : Nat) : Bool :=
  s.firstWaypointIndex?.any (· ≤ latest)

def reachedLast (s : Sequence) (latest : Nat) : Bool :=
  s.lastWaypointIndex?.any (· ≤ latest)

/-- The command before the return to launch has been executed. -/
def isReturning (s : Sequence) (latest : Nat) : Bool :=
  s.returnIndex?.any (· ≤ latest + 1)

/-- How many waypoints of the body have been passed, and how many there are. -/
def passed (s : Sequence) (latest : Nat) : Nat × Nat :=
  let total := s.body.waypointCount
  (min (s.waypointsUpTo latest) total, total)

/-- The share of waypoints passed in percent, where `count` makes numbers of counts. -/
def percentIn {α : Type} [OfNat α 0] [OfNat α 100] [Mul α] [Div α] (count : Nat → α)
    (s : Sequence) (latest : Nat) : α :=
  let (passed, total) := s.passed latest
  if total = 0 then 0 else count passed * 100 / count total

def percent (s : Sequence) (latest : Nat) : Float :=
  s.percentIn Decimal.ofNat latest

end Sequence

end Sortie
