import Sortie.Mission.Basic

/-!
# Editing missions

Every edit raises the version by one, and there is no edit after the last version. One that names
an index out of range changes nothing.
-/

namespace Sortie

inductive EditFault where
  | waypointOutOfRange (index count : Nat)
  | poiOutOfRange (index count : Nat)
  | missingNeighbours (index : Nat)
  /-- There is no next version. -/
  | overflow
  deriving DecidableEq, Repr

def EditFault.message : EditFault → String
  | .waypointOutOfRange index count =>
    "Waypoint index " ++ toString index ++ " out of range (count " ++ toString count ++ ")"
  | .poiOutOfRange index count =>
    "Point of interest index " ++ toString index ++ " out of range (count " ++ toString count
      ++ ")"
  | .missingNeighbours index => "No waypoints on both sides of index " ++ toString index
  | .overflow => "attempt to add with overflow"

namespace Mission

/-- Versions have 32 bits. -/
def versionLimit : Nat := 4294967296

/-- The mission in its next version. -/
def edited (m : Mission) : Except EditFault Mission :=
  if m.version + 1 < versionLimit then .ok { m with version := m.version + 1 }
  else .error .overflow

def push (m : Mission) (w : Waypoint) : Except EditFault Mission :=
  edited { m with waypoints := m.waypoints ++ [w] }

def insert (m : Mission) (index : Nat) (w : Waypoint) : Except EditFault Mission :=
  if m.waypoints.length < index then .error (.waypointOutOfRange index m.waypoints.length)
  else edited { m with waypoints := m.waypoints.insertIdx index w }

/-- A waypoint between two others: it moves on as the second does, with the mean of their tilts
if both have one, rounded to a whole angle. -/
def between (a b : Waypoint) (place : Geo.Point) (altitude : Float) : Waypoint :=
  let w : Waypoint :=
    { place, altitude, speed := b.speed, shouldContinue := b.shouldContinue }
  match a.tilt?, b.tilt? with
  | some x, some y => w.setTilt (Decimal.roundToInteger ((x + y) / 2))
  | _, _ => w

/-- Inserts a waypoint between those at `index - 1` and `index`. -/
def insertMidpoint (m : Mission) (index : Nat) (place : Geo.Point) (altitude : Float) :
    Except EditFault (Waypoint × Mission) :=
  match index, m.waypoints[index - 1]?, m.waypoints[index]? with
  | _ + 1, some a, some b =>
    let w := between a b place altitude
    (edited { m with waypoints := m.waypoints.insertIdx index w }).map (w, ·)
  | _, _, _ => .error (.missingNeighbours index)

def remove (m : Mission) (index : Nat) : Except EditFault (Waypoint × Mission) :=
  match m.waypoints[index]? with
  | some w => (edited { m with waypoints := m.waypoints.eraseIdx index }).map (w, ·)
  | none => .error (.waypointOutOfRange index m.waypoints.length)

/-- The new point of interest comes last; the result is its index. -/
def addPoi (m : Mission) (p : PointOfInterest) : Except EditFault (Nat × Mission) :=
  (edited { m with pois := m.pois ++ [p] }).map (m.pois.length, ·)

/-- The reference to a point of interest after the one at `index` is gone. -/
def shiftReference (index : Nat) : Option Nat → Option Nat
  | none => none
  | some poi =>
    if poi = index then none else if index < poi then some (poi - 1) else some poi

/-- Removes a point of interest. Waypoints that follow it follow none, and references to later
ones move down. -/
def removePoi (m : Mission) (index : Nat) : Except EditFault (PointOfInterest × Mission) :=
  match m.pois[index]? with
  | some p =>
    let rest : Mission :=
      { m with
        pois := m.pois.eraseIdx index
        waypoints := m.waypoints.map fun w => { w with poi := shiftReference index w.poi } }
    rest.edited.map (p, ·)
  | none => .error (.poiOutOfRange index m.pois.length)

end Mission

end Sortie
