import Sortie.Command.Basic
import Sortie.Clock.Instant

/-!
# Missions

A mission is a list of waypoints, with points of interest that waypoints refer to by index, and
the settings of camera and return. Neighbours of a waypoint are those beside it in the list. An
execution is a mission bound to one run.
-/

namespace Sortie

/-- Where the commands of a mission come from: its waypoints, a file of the user, or an external
planner. -/
inductive MissionKind where
  | standard
  | imported
  | survey
  deriving DecidableEq, Repr, Inhabited

/-- How the aircraft interprets uploaded commands. -/
inductive Interpreter where
  | standard
  | legacy
  deriving DecidableEq, Repr, Inhabited

namespace MissionKind

/-- Only the waypoints of a standard mission turn into commands. -/
def canGenerate (k : MissionKind) : Bool :=
  k = standard

def interpreter : MissionKind → Interpreter
  | imported => .legacy
  | standard | survey => .standard

end MissionKind

/-- What the camera does along the mission. -/
inductive Capture where
  | video
  | timeLapse (periodMillis : Nat)
  | distanceLapse (millimetres : Nat)
  deriving DecidableEq, Repr, Inhabited

namespace Capture

/-- Photos one by one. -/
def isLapse : Capture → Bool
  | video => false
  | timeLapse _ | distanceLapse _ => true

def start : Capture → Command
  | video => .startVideo
  | timeLapse periodMillis => .triggerInterval (Decimal.ofNat periodMillis)
  | distanceLapse millimetres => .triggerDistance (Decimal.ofNat millimetres / 1000.0) true

def stop : Capture → Command
  | video => .stopVideo
  | timeLapse _ | distanceLapse _ => .stopPhotos

end Capture

structure CaptureSettings where
  mode : Capture := .video
  exposureCompensation : Option String := none
  whiteBalance : Option String := none
  videoResolution : Option String := none
  photoResolution : Option String := none
  frameRate : Option Nat := none
  obstacleAvoidance : Bool := true
  digitalSignature : Bool := false
  deriving BEq, DecidableEq, Repr, Inhabited

inductive ReturnEnding where
  | hovering
  | landing
  deriving DecidableEq, Repr, Inhabited

structure CustomReturn where
  altitude : Float
  ending : ReturnEnding
  endingAltitude : Float
  deriving BEq, DecidableEq, Repr, Inhabited

/-- When the aircraft returns home: after the last waypoint, and when the link is lost. -/
structure ReturnSettings where
  onCompletion : Bool := false
  onDisconnection : Bool := true
  custom : Option CustomReturn := none
  deriving BEq, DecidableEq, Repr, Inhabited

/-- Something to do at a waypoint or before the first one. -/
inductive Action where
  | takeOff
  | landing
  | tilt (angle : Float)
  | delay (seconds : Float)
  | startPhotos (interval : Float) (count : Nat)
  | stopPhotos
  | startVideo
  | stopVideo
  | panorama (angle speed : Float)
  | stillMode (mode : Nat) (interval : Float)
  deriving BEq, DecidableEq, Repr, Inhabited

namespace Action

def toCommand : Action → Command
  | takeOff => .takeOff
  | landing => .land
  | tilt angle => .tilt angle
  | delay seconds => .delay seconds
  | startPhotos interval count => .startPhotos interval count
  | stopPhotos => .stopPhotos
  | startVideo => .startVideo
  | stopVideo => .stopVideo
  | panorama angle speed => .panorama angle speed 0 0
  | stillMode mode interval => .stillMode mode interval

def tilt? : Action → Option Float
  | tilt angle => some angle
  | _ => none

end Action

structure PointOfInterest where
  place : Geo.Point
  altitude : Float
  deriving BEq, DecidableEq, Repr, Inhabited

structure Waypoint where
  place : Geo.Point
  altitude : Float
  /-- Metres per second over ground. -/
  speed : Float
  yaw : Option Float := none
  /-- The point of interest to follow; it need not exist. -/
  poi : Option Nat := none
  actions : List Action := []
  shouldContinue : Bool := true
  deriving BEq, DecidableEq, Repr, Inhabited

namespace Waypoint

/-- The angle of the first tilt. -/
def tilt? (w : Waypoint) : Option Float :=
  w.actions.findSome? Action.tilt?

/-- `actions` with the angle of the first tilt changed, or nothing if there is no tilt. -/
def replaceTilt (angle : Float) : List Action → Option (List Action)
  | [] => none
  | a :: rest =>
    match a.tilt? with
    | some _ => some (.tilt angle :: rest)
    | none => (replaceTilt angle rest).map (a :: ·)

def setTilt (w : Waypoint) (angle : Float) : Waypoint :=
  { w with actions := (replaceTilt angle w.actions).getD (.tilt angle :: w.actions) }

end Waypoint

/-- How far a mission has been flown, as kept with it. -/
structure Cursor where
  lastItem : Nat := 0
  reachedFirst : Bool := false
  reachedLast : Bool := false
  lastPassed : Option Nat := none
  percent : Float := 0
  deriving BEq, DecidableEq, Repr, Inhabited

structure Mission where
  id : String
  name : String
  kind : MissionKind
  /-- One more after every edit. -/
  version : Nat := 1
  waypoints : List Waypoint := []
  pois : List PointOfInterest := []
  takeOffActions : List Action := []
  capture : CaptureSettings := {}
  rth : ReturnSettings := {}
  /-- Altitudes are above the sea level. -/
  isAbsolute : Bool := false
  /-- A waypoint list of the user, word for word. -/
  imported : Option String := none
  /-- Metres. -/
  estimatedDistance : Option Float := none
  cursor : Cursor := {}
  deriving BEq, DecidableEq, Repr, Inhabited

/-- A mission bound to one run. -/
structure Execution where
  mission : Mission
  id : String
  /-- The number of the run among those of the mission. -/
  rank : Nat
  /-- The first media resource taken after the last confirmed waypoint. -/
  recovery : Option String
  startedAt : Clock.Instant
  deriving BEq, DecidableEq, Repr, Inhabited

namespace Execution

def missionId (e : Execution) : String :=
  e.mission.id

def cursor (e : Execution) : Cursor :=
  e.mission.cursor

end Execution

end Sortie
