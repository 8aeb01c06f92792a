import Sortie.Command.Sequence
import Sortie.Mission.Basic

/-!
# Plans

A plan is what is uploaded to the aircraft: a header, the settings of the whole run, and a list
of items, which are the camera settings at the start and then the commands.
-/

namespace Sortie

@[ext]
structure PlanHeader where
  version : Nat
  frame : Frame
  digitalSignature : Bool
  deriving BEq, DecidableEq, Repr, Inhabited

/-- Settings of the whole run. -/
structure PlanSettings where
  missionId : String
  title : String
  returnOnCompletion : Bool
  returnOnDisconnection : Bool
  customReturn : Option CustomReturn
  deriving BEq, DecidableEq, Repr, Inhabited

/-- Settings of the camera when the run starts. -/
structure StartSettings where
  obstacleAvoidance : Bool
  exposureCompensation : Option String
  whiteBalance : Option String
  videoResolution : Option String
  photoResolution : Option String
  frameRate : Option Nat
  deriving BEq, DecidableEq, Repr, Inhabited

inductive PlanItem where
  | settings (s : StartSettings)
  | command (i : Item)
  deriving BEq, DecidableEq, Repr, Inhabited

def PlanItem.item? : PlanItem → Option Item
  | settings _ => none
  | command i => some i

def PlanItem.settings? : PlanItem → Option StartSettings
  | settings s => some s
  | command _ => none

@[ext]
structure Plan where
  header : PlanHeader
  settings : PlanSettings
  items : List PlanItem
  deriving BEq, DecidableEq, Repr, Inhabited

namespace Plan

def formatVersion : Nat := 1

def startSettings (c : CaptureSettings) : StartSettings where
  obstacleAvoidance := c.obstacleAvoidance
  exposureCompensation := c.exposureCompensation
  whiteBalance := c.whiteBalance
  videoResolution := c.videoResolution
  photoResolution := c.photoResolution
  frameRate := c.frameRate

/-- The plan of a mission. Its frame is that of the first waypoint of the commands, and without
one that of the mission. -/
def ofMission (m : Mission) (s : Sequence) : Plan where
  header :=
    { version := formatVersion
      frame := (Sequence.frame? s).getD (Frame.ofAbsolute m.isAbsolute)
      digitalSignature := m.capture.digitalSignature }
  settings :=
    { missionId := m.id
      title := m.name
      returnOnCompletion := m.rth.onCompletion
      returnOnDisconnection := m.rth.onDisconnection
      customReturn := m.rth.custom }
  items := .settings (startSettings m.capture) :: (Sequence.toItems s).map .command

def commands (p : Plan) : Except CommandFault Sequence :=
  Sequence.ofItems (p.items.filterMap PlanItem.item?)

def start? (p : Plan) : Option StartSettings :=
  p.items.findSome? PlanItem.settings?

def isAbsolute (p : Plan) : Bool :=
  p.header.frame = .absolute

end Plan

end Sortie
