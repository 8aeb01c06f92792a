import Sortie.Mission.Basic

/-!
# The course of a mission

Where the aircraft heads at each waypoint, how long the legs are, and how much of the whole way
a position covers. All that is measured along the way is defined for any kind of number, and then
for floats.
-/

namespace Sortie

/-- What a way is measured with. -/
structure Gauge (α : Type) where
  /-- The length of the leg between two places. -/
  distance : Geo.Point → Geo.Point → α
  /-- The share of the leg between two places that a position covers. -/
  part : Geo.Point → Geo.Point → Geo.Point → α
  /-- The length of the whole way, if there is an estimate. -/
  estimate : Option α

namespace Course

variable {α : Type} [Add α] [Mul α] [Div α] [OfNat α 0] [OfNat α 1] [LT α] [DecidableLT α]

def sum (xs : List α) : α :=
  xs.foldl (· + ·) 0

/-- What each leg is of the total, if there is a total. -/
def shares (total : α) (legs : List α) : List α :=
  legs.map fun leg => if 0 < total then leg / total else 0

/-- The shares before leg `k` and a part of that of leg `k` itself, limited to `0 … 1`. -/
def covered (shares : List α) (k : Nat) (part : α) : α :=
  Geo.limitToUnit (sum (shares.take k) + shares[k]?.getD 0 * part)

end Course

namespace Mission

def next? (m : Mission) (index : Nat) : Option Waypoint :=
  m.waypoints[index + 1]?

def previous? (m : Mission) : Nat → Option Waypoint
  | 0 => none
  | index + 1 => m.waypoints[index]?

/-- The point of interest that a waypoint follows, if it exists. -/
def target? (m : Mission) (w : Waypoint) : Option PointOfInterest :=
  w.poi.bind (m.pois[·]?)

/-- Its own yaw, or towards the point of interest, or towards the next waypoint, or on as from
the one before, or north. -/
def yaw (m : Mission) (index : Nat) : Float :=
  match m.waypoints[index]? with
  | none => 0
  | some w =>
    match w.yaw, m.target? w, m.next? index, m.previous? index with
    | some yaw, _, _, _ => yaw
    | none, some poi, _, _ => w.place.bearing poi.place
    | none, none, some next, _ => w.place.bearing next.place
    | none, none, none, some previous => previous.place.bearing w.place
    | none, none, none, none => 0

def viewMode (m : Mission) (index : Nat) : ViewMode :=
  match m.waypoints[index]? with
  | none => .ahead
  | some w =>
    let own : ViewMode := if w.yaw.isNone then .ahead else .absolute
    match w.poi with
    | some poi => if poi < m.pois.length then .target (poi % 4294967296) else own
    | none => own

section

variable {α : Type} [Add α] [Mul α] [Div α] [OfNat α 0] [OfNat α 1] [LT α] [DecidableLT α]

/-- The length of the leg that leaves a waypoint. -/
def legIn (g : Gauge α) (m : Mission) (index : Nat) : α :=
  match m.waypoints[index]?, m.next? index with
  | some a, some b => g.distance a.place b.place
  | _, _ => 0

def legsIn (g : Gauge α) (m : Mission) : List α :=
  (List.range m.waypoints.length).map (m.legIn g)

def lengthIn (g : Gauge α) (m : Mission) : α :=
  Course.sum (m.legsIn g)

def totalIn (g : Gauge α) (m : Mission) : α :=
  g.estimate.getD (m.lengthIn g)

def weightsIn (g : Gauge α) (m : Mission) : List α :=
  Course.shares (m.totalIn g) (m.legsIn g)

/-- The share of the whole way covered at a place after waypoint `lastPassed`. -/
def progressIn (g : Gauge α) (m : Mission) (place : Geo.Point) (lastPassed : Nat) : α :=
  match m.waypoints[lastPassed]? with
  | none => 0
  | some w =>
    let part := match m.next? lastPassed with
      | some next => g.part w.place next.place place
      | none => 0
    Course.covered (m.weightsIn g) lastPassed part

end

/-- Great circles and projections in floats. -/
def gauge (m : Mission) : Gauge Float where
  distance := Geo.Point.distance
  part := Geo.legShare
  estimate := m.estimatedDistance

def leg (m : Mission) (index : Nat) : Float :=
  m.legIn m.gauge index

def pathLength (m : Mission) : Float :=
  m.lengthIn m.gauge

def totalDistance (m : Mission) : Float :=
  m.totalIn m.gauge

def weights (m : Mission) : List Float :=
  m.weightsIn m.gauge

def progress (m : Mission) (place : Geo.Point) (lastPassed : Nat) : Float :=
  m.progressIn m.gauge place lastPassed

end Mission

end Sortie
