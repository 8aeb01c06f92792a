import Sortie.Run.Listener
import Sortie.Run.Step

/-!
# A simulated aircraft

The aircraft keeps the orders it receives and, if it is made to answer, does at once what it is
told. A rig is an engine with such an aircraft.
-/

namespace Sortie.Run

/-- Why orders of each kind are refused, if they are. -/
structure Refusals where
  activate : Option String := none
  deactivate : Option String := none
  stop : Option String := none
  cleanUp : Option String := none
  deriving Inhabited

def Refusals.of (r : Refusals) : Order → Option String
  | .prepare => none
  | .activate _ => r.activate
  | .deactivate => r.deactivate
  | .stop => r.stop
  | .cleanUp .. => r.cleanUp

structure Simulator where
  answers : Bool := false
  refusals : Refusals := {}
  /-- The last item flown. -/
  latest : Option Nat := none
  received : List Order := []
  /-- Notices on their way. -/
  waiting : List Notice := []
  deriving Inhabited

namespace Simulator

def send (s : Simulator) (ns : List Notice) : Simulator :=
  if s.answers then { s with waiting := s.waiting ++ ns } else s

def report (s : Simulator) (state : InterfaceState) (isPaused : Bool) : Notice :=
  .interface (some { state, isPaused, executed := s.latest })

/-- What the aircraft says to an order that it accepts. -/
def reply (s : Simulator) : Order → List Notice
  | .prepare => []
  | .activate _ => [.landed false, s.report .active false]
  | .deactivate => [s.report .idle true]
  | .stop => [s.report .idle false]
  | .cleanUp missionId _ => [.cleanedUp missionId .done]

/-- An order that is refused never arrives, except for an activation. -/
def arrives (o : Order) (refusal : Option String) : Bool :=
  match o with
  | .prepare | .activate _ => true
  | .deactivate | .stop | .cleanUp .. => refusal.isNone

def receive (s : Simulator) (o : Order) (refusal : Option String) : Simulator :=
  let s := if arrives o refusal then { s with received := s.received ++ [o] } else s
  if refusal.isNone then s.send (s.reply o) else s

def reach (s : Simulator) (item : Nat) : Simulator :=
  let s := { s with latest := some item }
  s.send [s.report .active false]

def land (s : Simulator) : Simulator :=
  s.send [s.report .idle false, .landed true]

end Simulator

structure Rig where
  engine : Engine := {}
  aircraft : Simulator := {}
  mayTakeOff : Bool := true
  deriving Inhabited

namespace Rig

def outlook (r : Rig) : Outlook :=
  { mayTakeOff := r.mayTakeOff, refusal := r.aircraft.refusals.of }

/-- The rig after an input to the engine, and what the engine did. -/
def give (r : Rig) (i : Input) : Except Clock.Span.Fault (Rig × List Effect) := do
  let (engine, log) ← r.engine.step r.outlook i
  let receive := fun (s : Simulator) (o, refusal) => s.receive o refusal
  let aircraft := (log.filterMap Effect.order?).foldl receive r.aircraft
  return ({ r with engine, aircraft }, log)

/-- Delivers notices that are on their way, and those that follow, at most `limit`. -/
def deliver (r : Rig) : Nat → Except Clock.Span.Fault (Rig × List Effect)
  | 0 => return (r, [])
  | limit + 1 =>
    match r.aircraft.waiting with
    | [] => return (r, [])
    | n :: waiting => do
      let (r, log) ← { r with aircraft := { r.aircraft with waiting } }.give (.notice n)
      let (r, more) ← r.deliver limit
      return (r, log ++ more)

end Rig

end Sortie.Run
