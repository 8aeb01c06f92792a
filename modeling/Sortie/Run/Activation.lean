import Sortie.Run.Phase

/-!
# Activation

Before a mission is activated the camera has to settle, and media of an earlier attempt have to
be deleted. Whatever goes wrong on the way gives the attempt up.
-/

namespace Sortie.Run.Engine

def fail (e : Engine) (f : Failure) : Engine :=
  { e with intent := .none, settling := none, cleanUp := none }.setWatch .none
    |>.setState (.failed f)

def activate (e : Engine) (w : Outlook) (startItem : Nat) (restart : Bool) : Engine :=
  match e.flight with
  | none => e
  | some f =>
    let o : Order := .activate {
      restart
      interpreter := f.record.mission.kind.interpreter
      startItem
      lostLink := if f.record.mission.rth.onDisconnection then .returnHome else .goOn }
    match w.refusal o with
    | some reason => (e.order w o).fail (.rejected reason)
    | none => e.order w o

/-- Has the media resource of an earlier attempt deleted before the activation. -/
def cleanUpFirst (e : Engine) (w : Outlook) (missionId resource : String) (startItem : Nat) :
    Engine :=
  let o : Order := .cleanUp missionId resource
  match w.refusal o with
  | some _ => (e.order w o).fail .cleanUpCanceled
  | none => { e.order w o with cleanUp := some { missionId, startItem } }

/-- Starts the mission, where it was left if the aircraft can. -/
def launch (e : Engine) (w : Outlook) : Engine :=
  match e.flight with
  | none => e
  | some f =>
    if e.facts.landed && !w.mayTakeOff then
      e.setWatch .none |>.setState (.failed .cannotTakeOff)
    else
      let e := { e with intent := .playing }
      let item := f.record.cursor.lastItem
      if item = 0 || !e.facts.resumes then e.activate w 0 true
      else
        match f.record.recovery.filter (· ≠ "") with
        | some resource => e.cleanUpFirst w f.record.missionId resource item
        | none => e.activate w item true

/-- Goes on with the mission that the aircraft has paused. -/
def resume (e : Engine) (w : Outlook) : Engine :=
  match e.flight with
  | none => e
  | some f => { e with intent := .playing }.activate w f.record.cursor.lastItem false

def launchOrResume (e : Engine) (w : Outlook) (restart : Bool) : Engine :=
  if restart then e.launch w else e.resume w

/-- Launches or resumes, at once or when the camera has settled. -/
def whenSettled (e : Engine) (w : Outlook) (restart : Bool) : Engine :=
  if e.facts.camera.isSettled then e.launchOrResume w restart
  else { e with settling := some { restart } }

/-- Looks whether the camera has settled, and gives up after too many looks. -/
def poll (e : Engine) (w : Outlook) : Engine :=
  match e.settling with
  | none => e
  | some s =>
    if e.facts.camera.isSettled then { e with settling := none }.launchOrResume w s.restart
    else if e.settings.pollLimit ≤ s.attempts + 1 then e.fail .cameraNotSettled
    else { e with settling := some { s with attempts := s.attempts + 1 } }

end Sortie.Run.Engine
