import Sortie.Run.Activation

/-!
# Notices of the aircraft

A notice that agrees with what the pilot wants moves the run on. One that does not makes the
engine tell the aircraft again.
-/

namespace Sortie.Run.Engine

/-- The aircraft does not fly the mission. -/
def onIdle (e : Engine) (isPaused : Bool) : Engine :=
  let e := { e with counting := false }.showNavigating false
  match e.state with
  | .playing .. | .returning _ =>
    match e.intent with
    | .paused => e.hold
    | .playing => if isPaused then e.hold else e.finish
    | .stopped | .none => e.finish
  | .paused .. => if isPaused then e else e.finish
  | _ => e

/-- The aircraft flies the mission. -/
def onActive (e : Engine) (w : Outlook) : Engine :=
  match e.state with
  | .failed _ | .paused .. | .idle .. =>
    match e.intent with
    | .playing => e.start
    | .paused => e.order w .deactivate
    | .stopped => e.order w .stop
    | .none => e
  | .noMission | .ended .. => if e.intent = .stopped then (e.order w .stop).unload else e
  | .playing .. | .returning _ => e

def onInterface (e : Engine) (w : Outlook) (report : Option Report) : Engine :=
  let e := { e with facts := { e.facts with report } }.showReady (report.any Report.isReady)
  match report with
  | none => e.onIdle false
  | some r =>
    let e := { e with flight := e.flight.map (Flight.withRecovery · r.recovery) }
    let e := match r.latest? with
      | some item => e.reach item
      | none => e
    match r.state with
    | .idle | .unavailable => e.onIdle r.isPaused
    | .active => e.onActive w

/-- Only a return that the mission started by itself is of the run. Without a run the aircraft
is told to stop. -/
def onReturnHome (e : Engine) (w : Outlook) (active : Bool) (reason : ReturnReason) : Engine :=
  if active && reason = .plan then
    match e.state with
    | .playing true x _ | .paused true x _ => e.setState (.returning x)
    | .playing false .. | .paused false .. | .returning _ => e
    | .noMission | .idle .. | .failed _ | .ended .. =>
      if e.intent = .playing then e else e.order w .stop
  else e

def onConnection (e : Engine) (connected : Bool) : Engine :=
  let e := { e with facts := { e.facts with connected } }
  match e.state with
  | .playing was x homeward =>
    if was = connected then e else e.setState (.playing connected x homeward)
  | .paused was x availability =>
    if was = connected then e else e.setState (.paused connected x availability)
  | _ => e

/-- An activation that waits is tried as soon as the camera has settled. -/
def onCamera (e : Engine) (w : Outlook) (camera : Camera) : Engine :=
  let e := { e with facts := { e.facts with camera } }
  if e.settling.isSome && camera.isSettled then e.poll w else e

def onCleanedUp (e : Engine) (w : Outlook) (missionId : String) (result : CleanUpResult) :
    Engine :=
  match e.cleanUp with
  | none => e
  | some c =>
    if c.missionId = missionId then
      let e := { e with cleanUp := none }
      if e.intent = .playing then
        match result with
        | .done => e.activate w c.startItem true
        | .canceled => e.fail .cleanUpCanceled
      else e
    else e

def notice (e : Engine) (w : Outlook) : Notice → Engine
  | .interface report => e.onInterface w report
  | .returnHome active reason => e.onReturnHome w active reason
  | .connection connected => e.onConnection connected
  | .landed landed => { e with facts := { e.facts with landed } }
  | .position place => { e with facts := { e.facts with place := some place } }
  | .camera camera => e.onCamera w camera
  | .cleanedUp missionId result => e.onCleanedUp w missionId result

end Sortie.Run.Engine
