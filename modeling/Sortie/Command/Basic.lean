import Sortie.Geo.Point

/-!
# Commands of a mission

A command is one step that the aircraft executes. Waypoints and looks at a place carry a frame,
which says what their altitudes are measured from.
-/

namespace Sortie

/-- What altitudes are measured from: the take-off point or the mean sea level. -/
inductive Frame where
  | relative
  | absolute
  deriving DecidableEq, Repr, Inhabited

def Frame.ofAbsolute (absolute : Bool) : Frame :=
  if absolute then .absolute else .relative

/-- Where the camera heads on the way to a waypoint: as the yaw there says, ahead, or to the
point of interest of that index. -/
inductive ViewMode where
  | absolute
  | ahead
  | target (index : Nat)
  deriving DecidableEq, Repr, Inhabited

inductive Command where
  | waypoint (place : Geo.Point) (altitude yaw hold : Float) (frame : Frame)
  | returnToLaunch
  | land
  | takeOff
  | delay (seconds : Float)
  | speed (value : Float)
  | lookAt (place : Geo.Point) (altitude : Float) (frame : Frame)
  | lookFree
  | view (mode : ViewMode)
  | tilt (angle : Float)
  | triggerDistance (metres : Float) (once : Bool)
  | triggerInterval (millis : Float)
  | startPhotos (interval : Float) (count : Nat)
  | stopPhotos
  | startVideo
  | stopVideo
  | panorama (horizontalAngle horizontalSpeed verticalAngle verticalSpeed : Float)
  | stillMode (mode : Nat) (interval : Float)
  deriving BEq, DecidableEq, Repr, Inhabited

namespace Command

def isWaypoint : Command → Bool
  | .waypoint .. => true
  | _ => false

def isReturn : Command → Bool
  | .returnToLaunch => true
  | _ => false

/-- The number of a command in the MAVLink vocabulary; the last two are of a vendor. -/
def id : Command → Nat
  | .waypoint .. => 16
  | .returnToLaunch => 20
  | .land => 21
  | .takeOff => 22
  | .delay _ => 93
  | .speed _ => 178
  | .lookAt .. => 195
  | .lookFree => 197
  | .tilt _ => 205
  | .triggerDistance .. => 206
  | .triggerInterval _ => 214
  | .startPhotos .. => 2000
  | .stopPhotos => 2001
  | .startVideo => 2500
  | .stopVideo => 2501
  | .panorama .. => 2800
  | .view _ => 50000
  | .stillMode .. => 50001

/-- Numbers up to 95 navigate. -/
def isNavigation (c : Command) : Bool :=
  c.id ≤ 95

end Command

end Sortie
