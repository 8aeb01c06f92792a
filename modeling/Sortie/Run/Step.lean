import Sortie.Run.Notices
import Sortie.Run.Pilot

/-!
# Steps of the engine

One input at a time. The only thing that can go wrong is that the time flown gets too long.
-/

namespace Sortie.Run

inductive Input where
  | wish (w : Wish)
  | notice (n : Notice)
  /-- Time to count the time flown. -/
  | tick
  /-- Time to look at the camera. -/
  | poll
  /-- The aircraft has not answered an activation of the mission. -/
  | timeout (missionId : String)
  deriving Inhabited

namespace Engine

def tick (e : Engine) : Except Clock.Span.Fault Engine :=
  match e.flight with
  | none => .ok e
  | some f =>
    if e.counting then do
      let elapsed ← f.elapsed.add e.settings.tick
      return { e with flight := some { f with elapsed } }.showElapsed elapsed |>.advance
    else return e

/-- Gives up an activation of the mission that is still not answered. -/
def timeout (e : Engine) (w : Outlook) (missionId : String) : Engine :=
  if e.missionId? = some missionId ∧ e.watch.activatingId? = some missionId then
    { e with settling := none, cleanUp := none, intent := .stopped }.order w .stop
      |>.setWatch .none
      |>.setState (.failed .timeout)
  else e

def handle (e : Engine) (w : Outlook) : Input → Except Clock.Span.Fault Engine
  | .wish x => .ok (e.heed w x)
  | .notice n => .ok (e.notice w n)
  | .tick => e.tick
  | .poll => .ok (e.poll w)
  | .timeout missionId => .ok (e.timeout w missionId)

/-- The engine after an input and what it did. -/
def step (e : Engine) (w : Outlook) (i : Input) :
    Except Clock.Span.Fault (Engine × List Effect) := do
  let e ← { e with log := [] }.handle w i
  return ({ e with log := [] }, e.log)

end Engine

end Sortie.Run
