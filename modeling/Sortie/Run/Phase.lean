import Sortie.Run.Progress

/-!
# Phases of a run

How a run starts, is paused, ends, and is unloaded.
-/

namespace Sortie.Run.Engine

/-- The aircraft flies the mission. -/
def start (e : Engine) : Engine :=
  match e.flight with
  | none => e
  | some f =>
    { e with
      settling := none
      cleanUp := none
      facts := { e.facts with connected := true }
      counting := true }.advance
      |>.setWatch (.active f.record)
      |>.setState (.playing true f.record f.isHomeward)

/-- The aircraft has paused the mission. -/
def hold (e : Engine) : Engine :=
  let e := { e with counting := false, intent := .paused }.commit
  match e.flight with
  | none => e
  | some f =>
    e.setWatch .none
      |>.setState (.paused e.facts.connected f.record e.facts.availability)

/-- On the way home, by itself or at the end of the mission. -/
def isReturning (e : Engine) : Bool :=
  match e.state with
  | .returning _ => true
  | .playing _ _ homeward => homeward
  | _ => false

/-- The flight is over. A return that nobody could follow is told. -/
def finish (e : Engine) : Engine :=
  let e := { e with counting := false, settling := none, cleanUp := none }.commit
  match e.flight with
  | none => e
  | some f =>
    let e :=
      if e.isReturning && !e.facts.connected then e.emit (.returnUnconfirmed f.record.missionId)
      else e
    e.setWatch .none |>.setState (.ended f.record.cursor.reachedLast f.record)

/-- Forgets the run. What is known of the aircraft stays. -/
def unload (e : Engine) : Engine :=
  let e := if e.state.running?.isSome then e.setWatch .none else e
  { e with
    flight := none
    intent := .none
    counting := false
    settling := none
    cleanUp := none }.showElapsed .zero
    |>.showProgress 0
    |>.showDistance 0
    |>.showNavigating false
    |>.setState .noMission

end Sortie.Run.Engine
