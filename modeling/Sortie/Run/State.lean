import Sortie.Mission.Basic

/-!
# States of a run

What is known of a run at any time, what the pilot wants of it, and the events that tell of its
changes.
-/

namespace Sortie.Run

/-- Whether the loaded mission can be started. -/
inductive Availability where
  | available
  | droneDisconnected
  | missingPlanFile
  | calibrationRequired
  | insufficientStorage
  deriving DecidableEq, Repr, Inhabited

def Availability.name : Availability → String
  | available => "available"
  | droneDisconnected => "drone_disconnected"
  | missingPlanFile => "missing_plan_file"
  | calibrationRequired => "calibration_required"
  | insufficientStorage => "insufficient_storage"

/-- Why a mission was not activated. -/
inductive Failure where
  | noMission
  | interfaceNotReady
  | cannotTakeOff
  | rejected (reason : String)
  | timeout
  | cleanUpCanceled
  | cameraNotSettled
  deriving DecidableEq, Repr, Inhabited

def Failure.message : Failure → String
  | noMission => "No mission loaded"
  | interfaceNotReady => "Aircraft mission interface not ready"
  | cannotTakeOff => "Take-off currently not allowed"
  | rejected reason => "Activation failed: rejected by aircraft: " ++ reason
  | timeout => "Activation failed: no acknowledgment before timeout"
  | cleanUpCanceled => "Activation failed: stale resource cleanup canceled"
  | cameraNotSettled => "Activation failed: camera configuration did not settle"

inductive State where
  | noMission
  | idle (e : Execution) (availability : Availability)
  | failed (f : Failure)
  /-- `homeward` once the way home that ends the mission has begun. -/
  | playing (connected : Bool) (e : Execution) (homeward : Bool)
  /-- On a way home that the mission started by itself. -/
  | returning (e : Execution)
  | paused (connected : Bool) (e : Execution) (availability : Availability)
  /-- `completed` if the last waypoint was reached. -/
  | ended (completed : Bool) (e : Execution)
  deriving BEq, DecidableEq, Repr, Inhabited

namespace State

def name : State → String
  | noMission => "no_mission"
  | idle .. => "idle"
  | failed _ => "activation_error"
  | playing .. => "playing"
  | returning _ => "rth"
  | paused .. => "paused"
  | ended .. => "ended"

def execution? : State → Option Execution
  | idle e _ | playing _ e _ | returning e | paused _ e _ | ended _ e => some e
  | noMission | failed _ => none

/-- The execution that the aircraft flies or has paused. -/
def running? : State → Option Execution
  | playing _ e _ | returning e | paused _ e _ => some e
  | noMission | idle .. | failed _ | ended .. => none

/-- The same state of another version of the execution. -/
def withExecution (e : Execution) : State → State
  | idle _ availability => idle e availability
  | playing connected _ homeward => playing connected e homeward
  | returning _ => returning e
  | paused connected _ availability => paused connected e availability
  | ended completed _ => ended completed e
  | noMission => noMission
  | failed f => failed f

end State

/-- What the pilot wants. -/
inductive Intent where
  | none
  | playing
  | paused
  | stopped
  deriving DecidableEq, Repr, Inhabited

inductive Event where
  | stateChanged (s : State)
  | itemReached (index : Nat)
  | progressed (progress distance : Float)
  /-- The record of the execution has changed. -/
  | recorded (e : Execution)
  /-- A run ended on the way home with the link to the aircraft lost. -/
  | returnUnconfirmed (missionId : String)
  deriving Repr, Inhabited

end Sortie.Run
