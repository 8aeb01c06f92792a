import Sortie.Decimal.Precision
import Sortie.Run.Engine

/-!
# Progress of a run

Items reported by the aircraft, the share of the way covered, and the record that is kept.
-/

namespace Sortie.Run.Engine

/-- An item reported by the aircraft. While playing, it goes into the record at once. -/
def reach (e : Engine) (item : Nat) : Engine :=
  match e.flight with
  | none => e
  | some f =>
    if f.accepts item then
      let f := { f with latest := some item }
      let e := { e with flight := some f }.emit (.itemReached item)
      match e.state with
      | .playing connected _ _ =>
        let record := f.record.mark f.commands item
        { e with flight := some { f with record } }.refreshWatch
          |>.setState (.playing connected record (f.commands.isReturning item))
      | _ => e
    else e

/-- The share covered so far. It does not fall. -/
def advance (e : Engine) : Engine :=
  match e.flight with
  | none => e
  | some f =>
    match f.passed? with
    | none => e.showNavigating true
    | some (latest, waypoint) =>
      let e := e.showNavigating false
      let progress :=
        Decimal.roundTo (f.share e.facts.place latest waypoint) e.settings.precision
      if progress ≤ f.progress then e
      else
        let distance := progress * f.record.mission.totalDistance
        { e with flight := some { f with progress, distance } }.showProgress progress
          |>.showDistance distance
          |>.emit (.progressed progress distance)

/-- Puts what was accepted into the record and has it kept. -/
def commit (e : Engine) : Engine :=
  match e.flight with
  | none => e
  | some f =>
    let e := { e with flight := some f.commit }.refreshWatch
    { e with unsaved := some f.committed }.emit (.recorded f.committed)

end Sortie.Run.Engine
