import Sortie.Run.Activation

/-!
# The pilot

What the pilot asks of a run. A wish that does not fit the state is passed over.
-/

namespace Sortie.Run

inductive Wish where
  | setup (e : Execution) (s : Sequence)
  | play
  | pause
  | unpause
  | stop (forced : Bool)
  | reset
  | catchUp (item : Nat) (recovery : Option String) (elapsed : Clock.Span)
  | update (e : Execution)
  | setAvailability (a : Availability)
  deriving Inhabited

namespace Engine

/-- Loads a mission in place of any other. -/
def setup (e : Engine) (x : Execution) (s : Sequence) : Engine :=
  { e.unload with flight := some (.load x s) }.setState (.idle x e.facts.availability)

def play (e : Engine) (w : Outlook) : Engine :=
  match e.flight with
  | none => e.setState (.failed .noMission)
  | some f =>
    match e.state with
    | .playing .. | .returning _ => e
    | _ =>
      if e.facts.isReady then
        e.tell (.order .prepare none) |>.setWatch (.activating f.record) |>.whenSettled w true
      else e.setState (.failed .interfaceNotReady)

/-- The run is paused when the aircraft says so. -/
def pause (e : Engine) (w : Outlook) : Engine :=
  match e.state with
  | .playing .. =>
    { e with counting := false, settling := none }.setWatch .none
      |> fun e => { e with intent := .paused }.order w .deactivate
  | _ => e

def unpause (e : Engine) (w : Outlook) : Engine :=
  match e.state with
  | .paused .. =>
    if e.facts.isPaused then
      match e.flight with
      | none => e
      | some f => e.setWatch (.activating f.record) |>.whenSettled w false
    else e.setState (.failed .interfaceNotReady)
  | _ => e

/-- The link stands while the mission is played or paused. -/
def isLinked (e : Engine) : Bool :=
  match e.state with
  | .playing connected _ _ | .paused connected _ _ => connected
  | _ => false

/-- Ends the run. An aircraft that still has to fly home is only told to stop, unless `forced`;
the run ends when it reports. -/
def stop (e : Engine) (w : Outlook) (forced : Bool) : Engine :=
  let e := { e with counting := false, settling := none, cleanUp := none }
  match e.flight with
  | none => e
  | some f =>
    if !forced && f.isHomeAhead && e.isLinked then e.order w .stop
    else { e with intent := .stopped }.order w .stop |>.finish

/-- Takes over a run that the aircraft flies already. -/
def catchUp (e : Engine) (item : Nat) (recovery : Option String) (elapsed : Clock.Span) :
    Engine :=
  match e.flight with
  | none => e
  | some f =>
    let f := { f.withRecovery recovery with latest := some item, elapsed }
    { e with intent := .playing, flight := some f }.showElapsed elapsed |>.commit |>.start

/-- Another version of the loaded record. -/
def update (e : Engine) (x : Execution) : Engine :=
  match e.flight with
  | none => e
  | some f =>
    if f.record.missionId = x.missionId then
      let f := { f with record := x, floor := x.cursor.lastItem }
      let e := { e with flight := some f }.refreshWatch
      if e.state.execution?.isSome then e.setState (e.state.withExecution x) else e
    else e

/-- A paused run ends when its plan is gone. -/
def setAvailability (e : Engine) (a : Availability) : Engine :=
  let e := { e with facts := { e.facts with availability := a } }
  match e.state with
  | .idle x _ => e.setState (.idle x a)
  | .paused connected x _ =>
    if a = .missingPlanFile then e.finish else e.setState (.paused connected x a)
  | _ => e

def heed (e : Engine) (w : Outlook) : Wish → Engine
  | .setup x s => e.setup x s
  | .play => e.play w
  | .pause => e.pause w
  | .unpause => e.unpause w
  | .stop forced => e.stop w forced
  | .reset => e.unload
  | .catchUp item recovery elapsed => e.catchUp item recovery elapsed
  | .update x => e.update x
  | .setAvailability a => e.setAvailability a

end Engine

end Sortie.Run
