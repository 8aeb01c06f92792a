import Sortie.Run.Aircraft
import Sortie.Run.Flight
import Sortie.Run.Settings
import Sortie.Run.State
import Sortie.Run.Watch

/-!
# The run engine

The engine holds what the pilot wants and what the aircraft says. It is a state and a log of
what it does: orders to the aircraft, events, and values that it shows anew. A value is shown
anew only if it differs.
-/

namespace Sortie.Run

/-- What is known of the aircraft, whatever mission is loaded. -/
structure Facts where
  report : Option Report := none
  connected : Bool := false
  landed : Bool := true
  place : Option Geo.Point := none
  camera : Camera := {}
  availability : Availability := .available
  deriving Inhabited

namespace Facts

/-- The aircraft can take a mission. -/
def isReady (f : Facts) : Bool :=
  f.report.any Report.isReady

/-- The aircraft has paused a mission. -/
def isPaused (f : Facts) : Bool :=
  f.report.any (·.isPaused)

/-- A mission can be activated elsewhere than at its first command. -/
def resumes (f : Facts) : Bool :=
  f.report.any (·.resumes)

end Facts

/-- An activation that waits for the camera. -/
structure Settling where
  /-- It starts the mission and does not resume a paused one. -/
  restart : Bool
  /-- How often the camera was found busy. -/
  attempts : Nat := 0
  deriving DecidableEq, Repr, Inhabited

/-- An activation that waits until old media are deleted. -/
structure PendingCleanUp where
  missionId : String
  startItem : Nat
  deriving DecidableEq, Repr, Inhabited

/-- What the engine shows. -/
structure Board where
  state : State := .noMission
  progress : Float := 0
  elapsed : Clock.Span := .zero
  distance : Float := 0
  /-- On the way to the first waypoint. -/
  navigating : Bool := false
  ready : Bool := false
  deriving Inhabited

inductive Channel where
  | state
  | progress
  | elapsed
  | distance
  | navigating
  | ready
  | watch
  deriving DecidableEq, Repr, Inhabited

inductive Effect where
  /-- An order and why the aircraft refuses it, if it does. -/
  | order (o : Order) (refusal : Option String)
  | event (e : Event)
  /-- A value is shown anew. -/
  | show (c : Channel)
  deriving Repr, Inhabited

/-- What the engine meets while it handles one input. -/
structure Outlook where
  mayTakeOff : Bool := true
  /-- Why the aircraft refuses an order, if it does. -/
  refusal : Order → Option String := fun _ => none

structure Engine where
  settings : RunSettings := {}
  facts : Facts := {}
  flight : Option Flight := none
  state : State := .noMission
  intent : Intent := .none
  watch : Watch := .none
  /-- The time flown is counted. -/
  counting : Bool := false
  settling : Option Settling := none
  cleanUp : Option PendingCleanUp := none
  /-- The record to be kept next. -/
  unsaved : Option Execution := none
  board : Board := {}
  log : List Effect := []
  deriving Inhabited

namespace Engine

def execution? (e : Engine) : Option Execution :=
  e.flight.map (·.record)

def missionId? (e : Engine) : Option String :=
  e.execution?.map Execution.missionId

def elapsed (e : Engine) : Clock.Span :=
  (e.flight.map (·.elapsed)).getD .zero

def progress (e : Engine) : Float :=
  (e.flight.map (·.progress)).getD 0

def distance (e : Engine) : Float :=
  (e.flight.map (·.distance)).getD 0

def tell (e : Engine) (x : Effect) : Engine :=
  { e with log := e.log ++ [x] }

def emit (e : Engine) (x : Event) : Engine :=
  e.tell (.event x)

/-- Gives an order and leaves it at that, accepted or not. -/
def order (e : Engine) (w : Outlook) (o : Order) : Engine :=
  e.tell (.order o (w.refusal o))

def setState (e : Engine) (s : State) : Engine :=
  if e.state == s then e
  else
    { e with state := s, board := { e.board with state := s } }.tell (.show .state)
      |>.emit (.stateChanged s)

def setWatch (e : Engine) (w : Watch) : Engine :=
  { e with watch := w }.tell (.show .watch)

/-- Brings the watch up to date with the loaded record. -/
def refreshWatch (e : Engine) : Engine :=
  match e.execution?.bind e.watch.refresh? with
  | some w => e.setWatch w
  | none => e

def showProgress (e : Engine) (x : Float) : Engine :=
  if e.board.progress == x then e
  else { e with board := { e.board with progress := x } }.tell (.show .progress)

def showElapsed (e : Engine) (d : Clock.Span) : Engine :=
  if e.board.elapsed = d then e
  else { e with board := { e.board with elapsed := d } }.tell (.show .elapsed)

def showDistance (e : Engine) (x : Float) : Engine :=
  if e.board.distance == x then e
  else { e with board := { e.board with distance := x } }.tell (.show .distance)

def showNavigating (e : Engine) (b : Bool) : Engine :=
  if e.board.navigating = b then e
  else { e with board := { e.board with navigating := b } }.tell (.show .navigating)

def showReady (e : Engine) (b : Bool) : Engine :=
  if e.board.ready = b then e
  else { e with board := { e.board with ready := b } }.tell (.show .ready)

end Engine

end Sortie.Run
