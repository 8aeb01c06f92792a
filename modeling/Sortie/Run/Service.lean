import Sortie.Archive
import Sortie.Run.Simulator

/-!
# The run service

The service hands inputs to the engine one at a time, has its timers fire, and hands over the
records that it is told of. Time is counted in milliseconds. The timer of a purpose runs as long as
the engine needs it, and starts with a full period.

Records are kept behind the back of the service, one after the other and whenever there is time for
it, also when the service has stopped.
-/

namespace Sortie.Run

/-- The end of the time that the aircraft has to answer an activation of the mission. -/
structure Deadline where
  missionId : String
  due : Nat
  deriving DecidableEq, Repr, Inhabited

inductive Alarm where
  | tick
  | poll
  | deadline
  deriving DecidableEq, Repr, Inhabited

structure Service where
  rig : Rig := {}
  isRunning : Bool := true
  now : Nat := 0
  /-- When the time flown is counted next. -/
  tickDue : Option Nat := none
  /-- When the camera is looked at next. -/
  pollDue : Option Nat := none
  deadline : Option Deadline := none
  /-- Where records are kept, if anywhere. -/
  archive : Option Archive := none
  /-- The records handed over and not kept yet, the earliest first. -/
  outbox : List Execution := []
  /-- What the engine did, the latest first. -/
  log : List Effect := []
  deriving Inhabited

namespace Service

def engine (s : Service) : Engine :=
  s.rig.engine

/-- A period of no time is none, so the service does not start with such a timer. -/
def start (rig : Rig) (archive : Option Archive) : Service :=
  { rig
    archive
    isRunning := 0 < rig.engine.settings.tickMillis ∧ 0 < rig.engine.settings.pollMillis }

/-- A timer that runs already keeps its time. -/
def arm (needed : Bool) (due : Option Nat) (next : Nat) : Option Nat :=
  if needed then some (due.getD next) else none

/-- A deadline stands for as long as the same mission is being activated. -/
def armDeadline (activating : Option String) (deadline : Option Deadline) (next : Nat) :
    Option Deadline :=
  activating.map fun missionId =>
    match deadline with
    | some d => if d.missionId = missionId then d else ⟨missionId, next⟩
    | none => ⟨missionId, next⟩

/-- Seconds that the clock cannot reach. It counts up to one less than `2 ^ 63`, and when a run
starts it has counted at least one. -/
def horizon : Nat := 9223372036854775807

/-- Has the timers run that the engine needs. A deadline beyond the clock stops the service. -/
def armTimers (s : Service) : Service :=
  let settings := s.engine.settings
  let activating := s.engine.watch.activatingId?
  let next := s.now + settings.timeoutSeconds * 1000
  let deadline := armDeadline activating s.deadline next
  { s with
    tickDue := arm s.engine.counting s.tickDue (s.now + settings.tickMillis)
    pollDue := arm s.engine.settling.isSome s.pollDue (s.now + settings.pollMillis)
    deadline
    isRunning := s.isRunning && !deadline.any (horizon * 1000 ≤ ·.due) }

/-- Hands over the record that the engine wants kept, if there is anywhere to keep it. -/
def handOver (s : Service) : Service :=
  match s.engine.unsaved with
  | none => s
  | some record =>
    { s with
      outbox := if s.archive.isSome then s.outbox ++ [record] else s.outbox
      rig := { s.rig with engine := { s.engine with unsaved := none } } }

/-- Keeps the record handed over first. One that cannot be saved is lost. -/
def keep (s : Service) (isSaved : Bool) : Service :=
  match s.outbox with
  | [] => s
  | record :: outbox =>
    { s with
      outbox
      archive := if isSaved then s.archive.map (·.saveExecution record) else s.archive }

/-- Keeps all that has been handed over. -/
def keepAll (s : Service) : Service :=
  s.outbox.foldl (fun s _ => s.keep true) s

/-- One input. A service whose engine fails is gone. -/
def handle (s : Service) (i : Input) : Service :=
  if s.isRunning then
    match s.rig.give i with
    | .error _ => { s with isRunning := false }
    | .ok (rig, log) => { s with rig, log := log.reverseAux s.log }.handOver.armTimers
  else s

/-- Handles what the aircraft sends, at most `limit` notices. -/
def answer (s : Service) : Nat → Service
  | 0 => s
  | limit + 1 =>
    match s.rig.aircraft.waiting with
    | [] => s
    | n :: waiting =>
      let aircraft := { s.rig.aircraft with waiting }
      ({ s with rig := { s.rig with aircraft } }.handle (.notice n)).answer limit

/-- No input makes the aircraft send as much as this. -/
def answerLimit : Nat := 100

def due? (s : Service) : Alarm → Option Nat
  | .tick => s.tickDue
  | .poll => s.pollDue
  | .deadline => s.deadline.map (·.due)

/-- The alarm that comes first, and when. -/
def next? (s : Service) : Option (Alarm × Nat) :=
  let sooner (a : Alarm) (first : Option (Alarm × Nat)) : Option (Alarm × Nat) :=
    match s.due? a, first with
    | some due, some (b, earliest) => if due ≤ earliest then some (a, due) else some (b, earliest)
    | some due, none => some (a, due)
    | none, first => first
  sooner .tick (sooner .poll (sooner .deadline none))

/-- A periodic timer goes on, a deadline is over. -/
def fire (s : Service) : Alarm → Service
  | .tick => { s with tickDue := some (s.now + s.engine.settings.tickMillis) }.handle .tick
  | .poll => { s with pollDue := some (s.now + s.engine.settings.pollMillis) }.handle .poll
  | .deadline =>
    match s.deadline with
    | none => s
    | some d => { s with deadline := none }.handle (.timeout d.missionId)

/-- Lets the clock move on to `target`, with at most so many alarms on the way. -/
def advance (s : Service) (target : Nat) : Nat → Service
  | 0 => { s with now := target }
  | limit + 1 =>
    match s.next? with
    | none => { s with now := target }
    | some (a, due) =>
      if s.isRunning ∧ due ≤ target then
        (({ s with now := due }.fire a).answer answerLimit).advance target limit
      else { s with now := target }

/-- Lets time pass. Each of the three alarms comes at most once in a millisecond, and there is time
to keep what is handed over. -/
def wait (s : Service) (millis : Nat) : Service :=
  (s.advance (s.now + millis) (3 * (millis + 1))).keepAll

/-- An input and all that follows from it at once. -/
def give (s : Service) (i : Input) : Service :=
  ((s.handle i).answer answerLimit).wait 0

/-- Something happens to the aircraft, with all that follows from it at once. -/
def stir (s : Service) (f : Simulator → Simulator) : Service :=
  ({ s with rig := { s.rig with aircraft := f s.rig.aircraft } }.answer answerLimit).wait 0

def stop (s : Service) : Service :=
  { s with isRunning := false }

end Service

end Sortie.Run
