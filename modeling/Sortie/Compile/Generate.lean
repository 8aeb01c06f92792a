import Sortie.Mission.Course
import Sortie.Command.Sequence
import Sortie.Compile.Settings

/-!
# Generating commands

The commands of a mission follow its waypoints. Speed, view, target and tilt hold until they
are changed, so a command that would set what already holds is left out. A target is looked at
only from the waypoint on that follows it, and while there is one neither the view nor the tilt
counts.
-/

namespace Sortie

namespace Generate

/-- What the commands so far have set. -/
structure Held where
  speed : Option Float := none
  tilt : Option Float := none
  view : Option ViewMode := none
  target : Option Nat := none

def setSpeed (speed : Float) (h : Held) : Sequence × Held :=
  if h.speed == some speed then ([], h)
  else ([.speed speed], { h with speed := some speed })

/-- The view is left alone while there is a target. -/
def setView (view : ViewMode) (h : Held) : Sequence × Held :=
  if h.target.isNone ∧ h.view ≠ some view then ([.view view], { h with view := some view })
  else ([], h)

/-- A new target makes the tilt unknown; when there is none any more, the view is set again. -/
def setTarget (pois : List PointOfInterest) (frame : Frame) (view : ViewMode)
    (target : Option Nat) (h : Held) : Sequence × Held :=
  if target = h.target then ([], h)
  else match target.bind (pois[·]?) with
    | some poi => ([.lookAt poi.place poi.altitude frame], { h with target, tilt := none })
    | none => ([.lookFree, .view view], { h with target, view := some view })

/-- The commands of actions, without a tilt that already holds or cannot be seen. -/
def act : List Action → Held → Sequence × Held
  | [], h => ([], h)
  | .tilt angle :: rest, h =>
    if h.target.isSome || h.tilt == some angle then act rest h
    else
      let (commands, h) := act rest { h with tilt := some angle }
      (.tilt angle :: commands, h)
  | a :: rest, h =>
    let (commands, h) := act rest h
    (a.toCommand :: commands, h)

/-- The index of the point of interest that a waypoint follows, if it exists. -/
def targetIndex? (m : Mission) (w : Waypoint) : Option Nat :=
  w.poi.filter (· < m.pois.length)

/-- The capture starts at the first waypoint of two or more. -/
def startCapture (m : Mission) (index : Nat) : Sequence :=
  if index = 0 ∧ 1 < m.waypoints.length then [.delay 0, m.capture.mode.start] else []

/-- The commands of one waypoint. -/
def visit (m : Mission) (frame : Frame) (index : Nat) (w : Waypoint) (h : Held) :
    Sequence × Held :=
  let view := m.viewMode index
  let (speed, h) := setSpeed w.speed h
  let (look, h) := setView view h
  let fly : Command := .waypoint w.place w.altitude (m.yaw index) 0 frame
  let (track, h) := setTarget m.pois frame view (targetIndex? m w) h
  let (actions, h) := act w.actions h
  (speed ++ look ++ fly :: (track ++ actions ++ startCapture m index), h)

/-- The commands of the waypoints from an index on. -/
def visitAll (m : Mission) (frame : Frame) : Nat → List Waypoint → Held → Sequence
  | _, [], _ => []
  | index, w :: rest, h =>
    let (commands, h) := visit m frame index w h
    commands ++ visitAll m frame (index + 1) rest h

/-- What holds before the take-off actions: the speed to the first waypoint. -/
def firstSpeed (m : Mission) : Sequence × Held :=
  match m.waypoints with
  | [] => ([], {})
  | w :: _ => ([.speed w.speed], { speed := some w.speed })

/-- The way home. -/
def homeward (m : Mission) (s : CompileSettings) : Sequence :=
  if m.rth.onCompletion then [.delay s.returnDelay, .returnToLaunch] else []

end Generate

open Generate in
/-- The commands of a mission. -/
def Mission.generate (m : Mission) (s : CompileSettings) : Sequence :=
  let (speed, held) := firstSpeed m
  let frame := Frame.ofAbsolute m.isAbsolute
  speed ++ m.takeOffActions.map Action.toCommand ++ visitAll m frame 0 m.waypoints held
    ++ [m.capture.mode.stop] ++ homeward m s

end Sortie
