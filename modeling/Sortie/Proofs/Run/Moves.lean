import Sortie.Proofs.Run.Facts
import Sortie.Proofs.Run.Orders

/-!
# Moves of the registers

`Registers.Move` is the table of what an input can do to the registers of a run, with the condition
on the registers and on the camera under which it does so, and `move_step` says that each step of
the engine is a move.  So a property of the registers that no move breaks is kept along a run, and
to show it no handler of the engine has to be opened again.

An attempt at an activation has several outcomes: it is not allowed, its first order is refused, or
that order is accepted and the attempt goes on (`Registers.Outcome`).
-/

namespace Sortie.Run

/-- The camera is looked at. -/
def Input.looks : Input → Bool
  | .poll | .notice (.camera _) => true
  | .wish _ | .tick | .timeout _ | .notice (.interface _) | .notice (.returnHome ..)
  | .notice (.connection _) | .notice (.landed _) | .notice (.position _)
  | .notice (.cleanedUp ..) => false

/-- The aircraft says that it flies the mission. -/
def Input.reportsActive : Input → Bool
  | .notice (.interface report) => report.any (·.state = .active)
  | _ => false

namespace Registers

/-- The mission is wanted. -/
def want (r : Registers) : Registers :=
  { r with intent := .playing }

/-- Nothing is counted or put off any more. -/
def quiet (r : Registers) : Registers :=
  { r with counting := false, settling := none, cleanUp := none }

/-- An activation of a mission is under way. -/
def expect (r : Registers) (missionId : String) : Registers :=
  r.see (.activating missionId)

/-- What is run, wanted or put off is loaded. -/
structure Backed (r : Registers) : Prop where
  of_running : r.phase.IsRunning → r.loaded.isSome = true
  of_wanted : r.intent = .playing → r.loaded.isSome = true
  of_settling : r.settling.isSome = true → r.loaded.isSome = true
  of_cleanUp : r.cleanUp.isSome = true → r.loaded.isSome = true

/-- What an attempt may come to, with the order it begins with. -/
inductive Outcome (w : Outlook) (r : Registers) : Option Order → Registers → Prop
  | grounded : Outcome w r none ((r.see .none).enter (.failed .cannotTakeOff))
  | sent {a : Activation} (h : w.refusal (.activate a) = none) :
      Outcome w r (some (.activate a)) r.want
  | rejected {a : Activation} {reason : String} (h : w.refusal (.activate a) = some reason) :
      Outcome w r (some (.activate a)) (r.fail (.rejected reason))
  | cleaning {missionId resource : String} (item : Nat)
      (h : w.refusal (.cleanUp missionId resource) = none) :
      Outcome w r (some (.cleanUp missionId resource))
        { r.want with cleanUp := some ⟨missionId, item⟩ }
  | canceled {missionId resource reason : String}
      (h : w.refusal (.cleanUp missionId resource) = some reason) :
      Outcome w r (some (.cleanUp missionId resource)) (r.fail .cleanUpCanceled)

/-- The pilot asks for the loaded mission to be started, or for the paused one to be resumed. -/
inductive Asked (r : Registers) : Input → Bool → Prop
  | play (h : ¬ r.phase.IsFlying) : Asked r (.wish .play) true
  | unpause (h : r.phase = .paused) : Asked r (.wish .unpause) false

theorem not_asked {r : Registers} {t : Turn} {restart : Bool} (h : t.asks = false) :
    ¬ r.Asked t.input restart := by
  intro ha
  obtain ⟨w, i, log⟩ := t
  cases ha <;> cases h

/-- What an input can do to the registers, given the facts known once it is there. -/
inductive Move (w : Outlook) (f : Facts) (r : Registers) : Input → Registers → Prop
  /-- The input is passed over, or it matters to the rest of the engine alone. -/
  | stay {i : Input} (h : i.looks = true → f.camera.isSettled = true → r.settling = none) :
      Move w f r i r
  | load (x : Execution) (s : Sequence) :
      Move w f r (.wish (.setup x s)) { r.unload with phase := .idle, loaded := some x.missionId }
  | unload : Move w f r (.wish .reset) r.unload
  | empty (h : r.loaded = none) : Move w f r (.wish .play) (r.enter (.failed .noMission))
  | unready {i : Input} {restart : Bool} (ha : r.Asked i restart) (hl : r.loaded.isSome = true) :
      Move w f r i (r.enter (.failed .interfaceNotReady))
  | attempt {i : Input} {restart : Bool} {missionId : String} {o : Option Order} {r' : Registers}
      (ha : r.Asked i restart) (hl : r.loaded = some missionId)
      (hc : f.camera.isSettled = true) (h : Outcome w (r.expect missionId) o r') : Move w f r i r'
  | defer {i : Input} {restart : Bool} {missionId : String} (ha : r.Asked i restart)
      (hl : r.loaded = some missionId) (hc : f.camera.isSettled = false) :
      Move w f r i { r.expect missionId with settling := some { restart } }
  | pause (h : r.phase = .playing) :
      Move w f r (.wish .pause)
        { r with intent := .paused, watch := .none, counting := false, settling := none }
  | quiet (forced : Bool) : Move w f r (.wish (.stop forced)) r.quiet
  | stop (forced : Bool) (h : r.loaded.isSome = true) :
      Move w f r (.wish (.stop forced)) { r with intent := .stopped }.finish
  | catchUp (item : Nat) (recovery : Option String) (elapsed : Clock.Span)
      (h : r.loaded.isSome = true) :
      Move w f r (.wish (.catchUp item recovery elapsed)) r.want.start
  | lose (a : Availability) (h : r.phase = .paused) :
      Move w f r (.wish (.setAvailability a)) r.finish
  | rest (report : Option Report) (h : ¬ r.phase.IsFlying) :
      Move w f r (.notice (.interface report)) { r with counting := false }
  | hold (report : Option Report) (h : r.phase.IsFlying) :
      Move w f r (.notice (.interface report)) r.hold
  | finish (report : Option Report) (h : r.phase.IsRunning) :
      Move w f r (.notice (.interface report)) r.finish
  | start {report : Option Report} (hi : r.intent = .playing) (hl : r.loaded.isSome = true)
      (hr : Input.reportsActive (.notice (.interface report)) = true) :
      Move w f r (.notice (.interface report)) r.start
  | abandon {report : Option Report} (hp : r.phase = .noMission ∨ r.phase = .ended)
      (hi : r.intent = .stopped)
      (hr : Input.reportsActive (.notice (.interface report)) = true) :
      Move w f r (.notice (.interface report)) r.unload
  | goHome (h : r.phase.IsRunning) :
      Move w f r (.notice (.returnHome true .plan)) (r.enter .returning)
  | settled {i : Input} {s : Settling} {o : Option Order} {r' : Registers}
      (hi : i.looks = true) (hs : r.settling = some s) (hc : f.camera.isSettled = true)
      (h : Outcome w { r with settling := none } o r') : Move w f r i r'
  | unsettled {s : Settling} (hs : r.settling = some s) (hc : f.camera.isSettled = false) :
      Move w f r .poll { r with settling := some { s with attempts := s.attempts + 1 } }
  | exhausted {s : Settling} (hs : r.settling = some s) (hc : f.camera.isSettled = false) :
      Move w f r .poll (r.fail .cameraNotSettled)
  | cleaned {c : PendingCleanUp} {a : Activation} {r' : Registers} (hc : r.cleanUp = some c)
      (hi : r.intent = .playing)
      (h : Outcome w { r with cleanUp := none } (some (.activate a)) r') :
      Move w f r (.notice (.cleanedUp c.missionId .done)) r'
  | canceled {c : PendingCleanUp} (hc : r.cleanUp = some c) (hi : r.intent = .playing) :
      Move w f r (.notice (.cleanedUp c.missionId .canceled)) (r.fail .cleanUpCanceled)
  | drop {c : PendingCleanUp} (result : CleanUpResult) (hc : r.cleanUp = some c)
      (hi : r.intent ≠ .playing) :
      Move w f r (.notice (.cleanedUp c.missionId result)) { r with cleanUp := none }
  | timeout {missionId : String} (hl : r.loaded = some missionId)
      (hw : r.watch = .activating missionId) :
      Move w f r (.timeout missionId)
        (({ r with intent := .stopped, settling := none, cleanUp := none }.see .none).enter
          (.failed .timeout))

end Registers

open Registers (Move Outcome Asked)

namespace Engine

variable {e : Engine} {w : Outlook} {f : Flight}

theorem exists_flight (h : e.registers.loaded.isSome = true) : ∃ f, e.flight = some f := by
  cases hf : e.flight with
  | none =>
    rw [(flight_eq_none_iff e).mp hf] at h
    cases h
  | some f => exact ⟨f, rfl⟩

/-! ### Attempts -/

theorem outcome_activate {r : Registers} (hf : e.flight = some f) (hr : e.registers = r.want)
    (item : Nat) (restart : Bool) :
    Outcome w r (some (.activate (f.activation item restart)))
      (e.activate w item restart).registers := by
  unfold activate
  rw [hf]
  dsimp only
  split
  · next reason hw =>
    rw [registers_fail, registers_order, hr]
    exact .rejected hw
  · next hw =>
    rw [registers_order, hr]
    exact .sent hw

theorem outcome_cleanUpFirst {r : Registers} (hr : e.registers = r.want)
    (missionId resource : String) (item : Nat) :
    Outcome w r (some (.cleanUp missionId resource))
      (e.cleanUpFirst w missionId resource item).registers := by
  unfold cleanUpFirst
  dsimp only
  split
  · next reason hw =>
    rw [registers_fail, registers_order, hr]
    exact .canceled hw
  · next hw =>
    have hc : ({ e.order w (.cleanUp missionId resource) with
        cleanUp := some ⟨missionId, item⟩ } : Engine).registers
        = { e.registers with cleanUp := some ⟨missionId, item⟩ } := rfl
    rw [hc, hr]
    exact .cleaning item hw

theorem registers_wanted (hf : e.flight = some f) :
    ({ e with flight := some f, intent := .playing } : Engine).registers = e.registers.want := by
  simp only [registers, missionId?, execution?, hf, Registers.want]

theorem outcome_launch (hf : e.flight = some f) :
    Outcome w e.registers (e.attempt? w .launch) (e.launch w).registers := by
  have hr := registers_wanted hf
  show Outcome w e.registers (e.launchOrder? w) (e.launch w).registers
  unfold launch launchOrder?
  rw [hf]
  dsimp only [Option.bind_some]
  split
  · rw [registers_setState, registers_setWatch]
    exact .grounded
  · split
    · exact outcome_activate rfl hr 0 true
    · cases f.record.recovery.filter (· ≠ "") with
      | some resource => exact outcome_cleanUpFirst hr _ resource _
      | none => exact outcome_activate rfl hr _ true

theorem outcome_resume (hf : e.flight = some f) :
    Outcome w e.registers (e.attempt? w .resume) (e.resume w).registers := by
  have hr := registers_wanted hf
  unfold resume attempt?
  rw [hf]
  exact outcome_activate rfl hr _ false

theorem outcome_launchOrResume (hf : e.flight = some f) (restart : Bool) :
    Outcome w e.registers (e.attempt? w (Settling.cause { restart }))
      (e.launchOrResume w restart).registers := by
  unfold launchOrResume Settling.cause
  cases restart with
  | true => exact outcome_launch hf
  | false => exact outcome_resume hf

theorem move_whenSettled {d : Engine} {i : Input} {restart : Bool}
    (ha : d.registers.Asked i restart) (hf : d.flight = some f)
    (hd : e.registers = d.registers.expect f.record.missionId)
    (hef : e.flight = some f) (hc : e.facts.camera = d.facts.camera) :
    Move w d.facts d.registers i (e.whenSettled w restart).registers := by
  have hl : d.registers.loaded = some f.record.missionId := loaded_eq_of_flight hf
  unfold whenSettled
  rw [hc]
  split
  · next hs => exact .attempt ha hl hs (hd ▸ outcome_launchOrResume hef restart)
  · next hs =>
    have hr : ({ e with settling := some { restart } } : Engine).registers
        = { e.registers with settling := some { restart } } := rfl
    rw [hr, hd]
    exact .defer ha hl (Bool.not_eq_true _ ▸ hs)

theorem move_poll {i : Input} (hi : i.looks = true)
    (hpoll : i = .poll ∨ e.facts.camera.isSettled = true)
    (hl : e.registers.settling.isSome = true → e.registers.loaded.isSome = true) :
    Move w e.facts e.registers i (e.poll w).registers := by
  unfold poll
  cases hs : e.settling with
  | none => exact .stay fun _ _ => hs
  | some s =>
    have hsome : e.registers.settling = some s := hs
    dsimp only
    split
    · next hc =>
      obtain ⟨f, hf⟩ := exists_flight (hl (by rw [hsome]; rfl))
      exact .settled hi hsome hc
        (outcome_launchOrResume (e := { e with settling := none }) hf s.restart)
    · next hc =>
      have hc : e.facts.camera.isSettled = false := Bool.not_eq_true _ ▸ hc
      obtain rfl : i = .poll := hpoll.resolve_right (by simp [hc])
      split
      · rw [registers_fail]
        exact .exhausted hsome hc
      · exact .unsettled hsome hc

/-! ### Wishes -/

theorem registers_setup (e : Engine) (x : Execution) (s : Sequence) :
    (e.setup x s).registers
      = { e.registers.unload with phase := .idle, loaded := some x.missionId } := by
  unfold setup
  rw [registers_setState, ← registers_unload]
  rfl

theorem move_play (e : Engine) (w : Outlook) :
    Move w e.facts e.registers (.wish .play) (e.play w).registers := by
  unfold play
  cases hf : e.flight with
  | none =>
    rw [registers_setState]
    exact .empty ((flight_eq_none_iff e).mp hf)
  | some f =>
    dsimp only
    split
    · exact .stay (by simp [Input.looks])
    · exact .stay (by simp [Input.looks])
    · next hp hr =>
      have ha : e.registers.Asked (.wish .play) true := .play (State.not_isFlying hp hr)
      split
      · exact move_whenSettled ha hf rfl hf rfl
      · rw [registers_setState]
        exact .unready ha (loaded_isSome hf)

theorem move_pause (e : Engine) (w : Outlook) :
    Move w e.facts e.registers (.wish .pause) (e.pause w).registers := by
  unfold pause
  split
  · next hs => exact .pause (congrArg State.phase hs)
  · exact .stay (by simp [Input.looks])

theorem move_unpause (hb : e.registers.Backed) :
    Move w e.facts e.registers (.wish .unpause) (e.unpause w).registers := by
  unfold unpause
  split
  · next hs =>
    have hp : e.registers.phase = .paused := congrArg State.phase hs
    obtain ⟨f, hf⟩ := exists_flight (hb.of_running (.inr hp))
    split
    · rw [hf]
      exact move_whenSettled (.unpause hp) hf rfl hf rfl
    · rw [registers_setState]
      exact .unready (.unpause hp) (loaded_isSome hf)
  · exact .stay (by simp [Input.looks])

theorem move_stop (e : Engine) (w : Outlook) (forced : Bool) :
    Move w e.facts e.registers (.wish (.stop forced)) (e.stop w forced).registers := by
  unfold stop
  dsimp only
  split
  · exact .quiet forced
  · next f hf =>
    split
    · exact .quiet forced
    · have hr := registers_finish (e := ({ e with
        counting := false, settling := none, cleanUp := none, intent := .stopped } : Engine).order w
          .stop) hf
      exact hr ▸ .stop forced (loaded_isSome hf)

theorem move_catchUp (e : Engine) (w : Outlook) (item : Nat) (recovery : Option String)
    (elapsed : Clock.Span) :
    Move w e.facts e.registers (.wish (.catchUp item recovery elapsed))
      (e.catchUp item recovery elapsed).registers := by
  unfold catchUp
  split
  · exact .stay (by simp [Input.looks])
  · next f hf =>
    let g : Flight := { f.withRecovery recovery with latest := some item, elapsed }
    let d : Engine := { e with intent := .playing, flight := some g }
    have hr : (d.showElapsed elapsed).commit.registers = e.registers.want := by
      rw [registers_commit, registers_showElapsed]
      simp only [d, g, registers, missionId?, execution?, hf, Registers.want, Flight.withRecovery,
        Option.map_some]
    have hl : (d.showElapsed elapsed).commit.registers.loaded.isSome = true := by
      rw [hr]
      exact loaded_isSome hf
    obtain ⟨g', hg⟩ := exists_flight hl
    have hs : (d.showElapsed elapsed).commit.start.registers = e.registers.want.start := by
      rw [registers_start hg, hr]
    exact hs ▸ .catchUp item recovery elapsed (loaded_isSome hf)

theorem move_update (e : Engine) (w : Outlook) (x : Execution) :
    Move w e.facts e.registers (.wish (.update x)) (e.update x).registers := by
  have hr : (e.update x).registers = e.registers := by
    unfold update
    split
    · rfl
    · next f hf =>
      split
      · next hid =>
        have hd : ({ e with flight := some { f with record := x, floor := x.cursor.lastItem } } :
            Engine).refreshWatch.registers = e.registers := by
          rw [registers_refreshWatch, registers_withFlight hf hid.symm]
        dsimp only
        split
        · rw [registers_setState, State.phase_withExecution, hd]
          have hp := congrArg Registers.phase hd
          exact (congrArg (e.registers.enter ·) hp).trans rfl
        · exact hd
      · rfl
  rw [hr]
  exact .stay (by simp [Input.looks])

/-- A state of the same phase. -/
theorem registers_setState_of_phase {s t : State} (hs : e.state = s) (hp : t.phase = s.phase) :
    (e.setState t).registers = e.registers := by
  rw [registers_setState, hp, ← hs]
  rfl

theorem move_setAvailability {g : Facts} (hb : e.registers.Backed) (w : Outlook)
    (a : Availability) :
    Move w g e.registers (.wish (.setAvailability a)) (e.setAvailability a).registers := by
  let d : Engine := { e with facts := { e.facts with availability := a } }
  have hd : d.registers = e.registers := rfl
  have hstay : Move w g e.registers (.wish (.setAvailability a)) e.registers :=
    .stay (by simp [Input.looks])
  unfold setAvailability
  dsimp only
  split
  · next x availability hs =>
    have hr : (d.setState (.idle x a)).registers = d.registers := registers_setState_of_phase hs rfl
    exact (hr.trans hd) ▸ hstay
  · next connected x availability hs =>
    have hp : e.registers.phase = .paused := congrArg State.phase hs
    split
    · obtain ⟨f, hf⟩ := exists_flight (hb.of_running (.inr hp))
      exact registers_finish (e := d) hf ▸ .lose a hp
    · have hr : (d.setState (.paused connected x a)).registers = d.registers :=
        registers_setState_of_phase hs rfl
      exact (hr.trans hd) ▸ hstay
  · exact hstay

theorem move_heed (hb : e.registers.Backed) (x : Wish) :
    Move w (e.facts.learn (.wish x)) e.registers (.wish x) (e.heed w x).registers := by
  cases x with
  | setup x s => exact registers_setup e x s ▸ .load x s
  | play => exact move_play e w
  | pause => exact move_pause e w
  | unpause => exact move_unpause hb
  | stop forced => exact move_stop e w forced
  | reset => exact registers_unload e ▸ .unload
  | catchUp item recovery elapsed => exact move_catchUp e w item recovery elapsed
  | update x => exact move_update e w x
  | setAvailability a => exact move_setAvailability hb w a

/-! ### Notices -/

theorem move_onIdle {g : Facts} (hb : e.registers.Backed) (report : Option Report)
    (isPaused : Bool) :
    Move w g e.registers (.notice (.interface report)) (e.onIdle isPaused).registers := by
  have hd : (({ e with counting := false } : Engine).showNavigating false).registers
      = { e.registers with counting := false } := registers_showNavigating _ _
  unfold onIdle
  revert hd
  generalize ({ e with counting := false } : Engine).showNavigating false = d
  intro hd
  dsimp only
  have hp : d.state.phase = e.registers.phase := congrArg Registers.phase hd
  -- What is flown or paused is loaded, so that it can be held or finished.
  have hfinish (hr : d.state.phase.IsRunning) :
      Move w g e.registers (.notice (.interface report)) d.finish.registers := by
    obtain ⟨f, hf⟩ := exists_flight (e := d) (hd ▸ hb.of_running (hp ▸ hr))
    rw [registers_finish hf, hd]
    exact .finish report (hp ▸ hr)
  have hhold (hr : d.state.phase.IsFlying) :
      Move w g e.registers (.notice (.interface report)) d.hold.registers := by
    obtain ⟨f, hf⟩ := exists_flight (e := d) (hd ▸ hb.of_running (.inl (hp ▸ hr)))
    rw [registers_hold hf, hd]
    exact .hold report (hp ▸ hr)
  have hrest (hr : ¬ d.state.phase.IsFlying) :
      Move w g e.registers (.notice (.interface report)) d.registers :=
    hd ▸ .rest report (hp ▸ hr)
  cases hs : d.state with
  | playing | returning =>
    have hr : d.state.phase.IsFlying := by simp [hs, State.phase, Phase.IsFlying]
    cases d.intent with
    | paused => exact hhold hr
    | playing =>
      dsimp only
      split
      · exact hhold hr
      · exact hfinish (.inl hr)
    | stopped | none => exact hfinish (.inl hr)
  | paused connected x availability =>
    have hr : d.state.phase = .paused := by rw [hs]; rfl
    dsimp only
    split
    · exact hrest (by simp [hr, Phase.IsFlying])
    · exact hfinish (.inr hr)
  | noMission | idle | failed | ended => exact hrest (by simp [hs, State.phase, Phase.IsFlying])

theorem move_onActive {g : Facts} (hb : e.registers.Backed) {report : Option Report}
    (hr : Input.reportsActive (.notice (.interface report)) = true) :
    Move w g e.registers (.notice (.interface report)) (e.onActive w).registers := by
  have hstay : Move w g e.registers (.notice (.interface report)) e.registers :=
    .stay (by simp [Input.looks])
  have hstart (hi : e.intent = .playing) :
      Move w g e.registers (.notice (.interface report)) e.start.registers := by
    obtain ⟨f, hf⟩ := exists_flight (hb.of_wanted hi)
    exact registers_start hf ▸ .start hi (hb.of_wanted hi) hr
  have hover (hp : e.state.phase = .noMission ∨ e.state.phase = .ended) :
      Move w g e.registers (.notice (.interface report))
        (if e.intent = .stopped then (e.order w .stop).unload else e).registers := by
    split
    · next hi => exact registers_unload (e.order w .stop) ▸ .abandon hp hi hr
    · exact hstay
  unfold onActive
  cases hs : e.state with
  | failed | paused | idle =>
    cases hi : e.intent with
    | playing => exact hstart hi
    | paused | stopped | none => exact hstay
  | noMission | ended => exact hover (by simp [hs, State.phase])
  | playing | returning => exact hstay

theorem move_onInterface {g : Facts} (hb : e.registers.Backed) (report : Option Report) :
    Move w g e.registers (.notice (.interface report)) (e.onInterface w report).registers := by
  have hr : (e.takeIn report).registers = e.registers := registers_takeIn e report
  have hb : (e.takeIn report).registers.Backed := hr.symm ▸ hb
  rw [onInterface_eq, ← hr]
  split
  · next ha => exact move_onActive hb ha
  · exact move_onIdle hb report _

theorem move_onReturnHome {g : Facts} (e : Engine) (active : Bool) (reason : ReturnReason) :
    Move w g e.registers (.notice (.returnHome active reason))
      (e.onReturnHome w active reason).registers := by
  have hstay : Move w g e.registers (.notice (.returnHome active reason)) e.registers :=
    .stay (by simp [Input.looks])
  unfold onReturnHome
  split
  · next h =>
    obtain ⟨rfl, rfl⟩ : active = true ∧ reason = .plan := by simpa using h
    have hhome (hr : e.state.phase.IsRunning) (x : Execution) :
        Move w g e.registers (.notice (.returnHome true .plan))
          (e.setState (.returning x)).registers := by
      rw [registers_setState]
      exact .goHome hr
    cases hs : e.state with
    | playing connected x homeward =>
      cases connected with
      | false => exact hstay
      | true => exact hhome (by rw [hs]; exact .inl (.inl rfl)) x
    | paused connected x availability =>
      cases connected with
      | false => exact hstay
      | true => exact hhome (by rw [hs]; exact .inr rfl) x
    | returning => exact hstay
    | noMission | idle | failed | ended =>
      dsimp only
      split
      · exact hstay
      · exact hstay
  · exact hstay

theorem move_onConnection {g : Facts} (e : Engine) (w : Outlook) (connected : Bool) :
    Move w g e.registers (.notice (.connection connected))
      (e.onConnection connected).registers := by
  let d : Engine := { e with facts := { e.facts with connected } }
  have hr : (e.onConnection connected).registers = e.registers := by
    unfold onConnection
    dsimp only
    split
    · next hs =>
      split
      · rfl
      · exact registers_setState_of_phase (e := d) hs rfl
    · next hs =>
      split
      · rfl
      · exact registers_setState_of_phase (e := d) hs rfl
    · rfl
  exact hr ▸ .stay (by simp [Input.looks])

theorem move_onCamera (hb : e.registers.Backed) (camera : Camera) :
    Move w { e.facts with camera } e.registers (.notice (.camera camera))
      (e.onCamera w camera).registers := by
  unfold onCamera
  dsimp only
  split
  · next h =>
    have hc : camera.isSettled = true := (Bool.and_eq_true _ _ ▸ h).2
    exact move_poll (e := { e with facts := { e.facts with camera } }) rfl (.inr hc) hb.of_settling
  · next h =>
    refine .stay fun _ hc => ?_
    have hc : camera.isSettled = true := hc
    show e.settling = none
    simpa [hc] using h

theorem move_onCleanedUp {g : Facts} (hb : e.registers.Backed) (missionId : String)
    (result : CleanUpResult) :
    Move w g e.registers (.notice (.cleanedUp missionId result))
      (e.onCleanedUp w missionId result).registers := by
  unfold onCleanedUp
  split
  · exact .stay (by simp [Input.looks])
  · next c hc =>
    have hsome : e.registers.cleanUp = some c := hc
    split
    · next hid =>
      subst hid
      dsimp only
      split
      · next hi =>
        cases result with
        | done =>
          obtain ⟨f, hf⟩ := exists_flight (hb.of_cleanUp (by rw [hsome]; rfl))
          have hr : ({ e with cleanUp := none } : Engine).registers
              = ({ e.registers with cleanUp := none } : Registers).want := by
            simp only [registers, Registers.want, hi, missionId?, execution?]
          exact .cleaned hsome hi (outcome_activate (e := { e with cleanUp := none }) hf hr _ true)
        | canceled =>
          dsimp only
          rw [registers_fail]
          exact .canceled hsome hi
      · next hi => exact .drop result hsome hi
    · exact .stay (by simp [Input.looks])

theorem move_notice (hb : e.registers.Backed) (n : Notice) :
    Move w (e.facts.learn (.notice n)) e.registers (.notice n) (e.notice w n).registers := by
  cases n with
  | interface report => exact move_onInterface hb report
  | returnHome active reason => exact move_onReturnHome e active reason
  | connection connected => exact move_onConnection e w connected
  | landed | position => exact .stay (by simp [Input.looks])
  | camera camera => exact move_onCamera hb camera
  | cleanedUp missionId result => exact move_onCleanedUp hb missionId result

/-! ### Steps -/

theorem registers_tick {e' : Engine} (ht : e.tick = .ok e') : e'.registers = e.registers := by
  unfold tick at ht
  split at ht
  · cases ht
    rfl
  · next f hf =>
    split at ht
    · cases hd : f.elapsed.add e.settings.tick with
      | error fault =>
        rw [hd] at ht
        cases ht
      | ok elapsed =>
        rw [hd] at ht
        cases ht
        rw [registers_advance, registers_showElapsed]
        exact registers_withFlight hf rfl
    · cases ht
      rfl

theorem move_timeout {g : Facts} (e : Engine) (w : Outlook) (missionId : String) :
    Move w g e.registers (.timeout missionId) (e.timeout w missionId).registers := by
  unfold timeout
  split
  · next h =>
    rw [registers_setState, registers_setWatch]
    exact .timeout h.1 ((Watch.activatingId?_eq_some_iff _ _).mp h.2)
  · exact .stay (by simp [Input.looks])

/-- **Each step is a move of the registers.** -/
theorem move_step {e' : Engine} {i : Input} {log : List Effect} (hb : e.registers.Backed)
    (hs : e.step w i = .ok (e', log)) :
    Move w (e.facts.learn i) e.registers i e'.registers := by
  obtain ⟨e₁, hh, rfl, -⟩ := handle_of_step hs
  show Move w (e.facts.learn i) e.registers i e₁.registers
  have hb : ({ e with log := [] } : Engine).registers.Backed := hb
  cases i with
  | wish x => cases hh; exact move_heed hb x
  | notice n => cases hh; exact move_notice hb n
  | tick =>
    have hr : e₁.registers = e.registers := registers_tick (e := { e with log := [] }) hh
    exact hr ▸ .stay (by simp [Input.looks])
  | poll => cases hh; exact move_poll rfl (.inl rfl) hb.of_settling
  | timeout missionId => cases hh; exact move_timeout { e with log := [] } w missionId

end Engine
end Sortie.Run
