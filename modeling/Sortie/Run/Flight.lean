import Sortie.Command.Sequence
import Sortie.Mission.Course
import Sortie.Clock.Span

/-!
# Flights

A flight is a loaded mission with its commands and what is known of its progress. Items that
the aircraft reports are accepted first and go into the record later.
-/

namespace Sortie

namespace Cursor

/-- The greater of two numbers; one that is none loses. -/
def greater (a b : Float) : Float :=
  if a < b ∨ a.isNaN then b else a

/-- What the cursor says once item `latest` has been executed. Nothing reached before is lost. -/
def mark (c : Cursor) (s : Sequence) (latest : Nat) : Cursor :=
  { lastItem := latest
    reachedFirst := c.reachedFirst || s.reachedFirst latest
    reachedLast := c.reachedLast || s.reachedLast latest
    lastPassed := s.lastPassed? latest <|> c.lastPassed
    percent := greater c.percent (s.percent latest) }

end Cursor

namespace Execution

def mark (e : Execution) (s : Sequence) (latest : Nat) : Execution :=
  { e with mission := { e.mission with cursor := e.cursor.mark s latest } }

end Execution

namespace Run

structure Flight where
  record : Execution
  commands : Sequence
  /-- The last item accepted. -/
  latest : Option Nat := none
  /-- The item of the record as it was last kept; reports behind it are stale. -/
  floor : Nat
  recovery : Option String
  elapsed : Clock.Span := .zero
  progress : Float := 0
  /-- Metres flown. -/
  distance : Float := 0
  deriving Inhabited

namespace Flight

def load (e : Execution) (s : Sequence) : Flight :=
  { record := e, commands := s, floor := e.cursor.lastItem, recovery := e.recovery }

/-- A report is accepted if it is newer than the last one accepted and not stale. -/
def accepts (f : Flight) (item : Nat) : Bool :=
  f.latest.all (· < item) && f.floor ≤ item

/-- The flight with another recovery resource, if there is one. -/
def withRecovery (f : Flight) (recovery : Option String) : Flight :=
  { f with recovery := recovery <|> f.recovery }

/-- The way home that ends the mission has begun. -/
def isHomeward (f : Flight) : Bool :=
  f.latest.any f.commands.isReturning

/-- The item to judge the flight by when it is stopped. -/
def present (f : Flight) : Nat :=
  f.latest.getD f.record.cursor.lastItem

/-- There is a return to launch, and waypoints before it are still to be reached. -/
def isHomeAhead (f : Flight) : Bool :=
  f.commands.hasReturn && !f.commands.reachedLast f.present

/-- The latest item and the waypoint passed last, once there is one. -/
def passed? (f : Flight) : Option (Nat × Nat) := do
  let latest ← f.latest
  return (latest, ← f.commands.lastPassed? latest)

/-- The share of the whole way covered. Without a place of the aircraft, it is at the waypoint. -/
def share (f : Flight) (place : Option Geo.Point) (latest waypoint : Nat) : Float :=
  match f.record.mission.waypoints[waypoint]? with
  | some w => f.record.mission.progress (place.getD w.place) waypoint
  | none => f.commands.percent latest / 100

/-- The record with the accepted item and the recovery resource in it. -/
def committed (f : Flight) : Execution :=
  let record := match f.latest with
    | some latest => f.record.mark f.commands latest
    | none => f.record
  { record with recovery := f.recovery <|> record.recovery }

/-- The flight with its record as committed. -/
def commit (f : Flight) : Flight :=
  { f with record := f.committed, floor := f.latest.getD f.floor }

end Flight

end Run

end Sortie
