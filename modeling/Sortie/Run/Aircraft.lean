import Sortie.Mission.Basic
import Sortie.Json.Shape

/-!
# The aircraft

The aircraft has states of its own. It only says whether it accepts an order; what it does
afterwards comes as notices.
-/

namespace Sortie.Run

/-- What the aircraft does when the link to the pilot is lost. -/
inductive LostLink where
  | returnHome
  | goOn
  deriving DecidableEq, Repr, Inhabited

/-- A request to fly a mission that is on the aircraft. -/
structure Activation where
  /-- From the start of the mission and not from where it was paused. -/
  restart : Bool
  interpreter : Interpreter
  /-- The first command to execute. -/
  startItem : Nat
  lostLink : LostLink
  deriving DecidableEq, Repr, Inhabited

/-- What the aircraft is told. -/
inductive Order where
  | prepare
  | activate (a : Activation)
  | deactivate
  | stop
  /-- Deletes the media of an earlier attempt. -/
  | cleanUp (missionId resource : String)
  deriving DecidableEq, Repr, Inhabited

inductive InterfaceState where
  | idle
  | active
  | unavailable
  deriving DecidableEq, Repr, Inhabited

/-- What the aircraft says of the mission it has. -/
structure Report where
  state : InterfaceState
  isPaused : Bool := false
  executed : Option Nat := none
  skipped : Option Nat := none
  /-- Whether a mission can be activated elsewhere than at its first command. -/
  resumes : Bool := true
  /-- The first media resource of the present attempt. -/
  recovery : Option String := none
  deriving DecidableEq, Repr, Inhabited

namespace Report

/-- The furthest item, executed or skipped. -/
def latest? (r : Report) : Option Nat :=
  match r.executed, r.skipped with
  | some a, some b => some (max a b)
  | some a, none => some a
  | none, b => b

def isReady (r : Report) : Bool :=
  r.state ≠ .unavailable

end Report

/-- Why the aircraft returns home. -/
inductive ReturnReason where
  | requested
  | lostLink
  | lowPower
  /-- The mission itself says so. -/
  | plan
  deriving DecidableEq, Repr, Inhabited

structure Camera where
  present : Bool := false
  configuring : Bool := false
  indexing : Bool := false
  deriving DecidableEq, Repr, Inhabited

namespace Camera

def ready : Camera := { present := true }

/-- Known, and busy neither with its configuration nor with its media. -/
def isSettled (c : Camera) : Bool :=
  c.present && !c.configuring && !c.indexing

end Camera

inductive CleanUpResult where
  | done
  | canceled
  deriving DecidableEq, Repr, Inhabited

/-- What the aircraft tells of itself. A report that is missing means that there is nothing to
fly missions with. -/
inductive Notice where
  | interface (report : Option Report)
  | returnHome (active : Bool) (reason : ReturnReason)
  | connection (connected : Bool)
  | landed (landed : Bool)
  | position (place : Geo.Point)
  | camera (camera : Camera)
  | cleanedUp (missionId : String) (result : CleanUpResult)
  deriving Repr, Inhabited

/-! ## JSON -/

namespace LostLink

def name : LostLink → String
  | returnHome => "ReturnToHome"
  | goOn => "Continue"

def shape : Json.Shape :=
  Json.Shape.choice [("ReturnToHome", none), ("Continue", none)]

def toJson (l : LostLink) : Json :=
  .text l.name

def ofJson? : Json → Option LostLink
  | .text "ReturnToHome" => some returnHome
  | .text "Continue" => some goOn
  | _ => none

end LostLink

namespace InterfaceState

def name : InterfaceState → String
  | idle => "Idle"
  | active => "Active"
  | unavailable => "Unavailable"

def shape : Json.Shape :=
  Json.Shape.choice [("Idle", none), ("Active", none), ("Unavailable", none)]

def toJson (s : InterfaceState) : Json :=
  .text s.name

def ofJson? : Json → Option InterfaceState
  | .text "Idle" => some idle
  | .text "Active" => some active
  | .text "Unavailable" => some unavailable
  | _ => none

end InterfaceState

namespace ReturnReason

def name : ReturnReason → String
  | requested => "UserRequested"
  | lostLink => "ConnectionLost"
  | lowPower => "PowerLow"
  | plan => "FlightPlan"

def shape : Json.Shape :=
  Json.Shape.choice [("UserRequested", none), ("ConnectionLost", none), ("PowerLow", none),
    ("FlightPlan", none)]

def toJson (r : ReturnReason) : Json :=
  .text r.name

def ofJson? : Json → Option ReturnReason
  | .text "UserRequested" => some requested
  | .text "ConnectionLost" => some lostLink
  | .text "PowerLow" => some lowPower
  | .text "FlightPlan" => some plan
  | _ => none

end ReturnReason

end Sortie.Run
