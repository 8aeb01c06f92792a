import Sortie.Proofs.Run.Dispatches
import Sortie.Proofs.Run.History

/-!
# Orders of an input

`Engine.orders` says which orders an input brings about, and `dispatches_step` says that a step
gives exactly these, all of them before the state of the run changes.  A step gives at most one
order of its own (`directOrders`), and it may attempt an activation.  Attempts have a `Cause`: the
pilot starts or resumes the mission, the camera has settled, or old media are deleted.
-/

namespace Sortie.Run

/-- Why the aircraft refuses an order, if it does.  A preparation is not refused. -/
def Outlook.answer (w : Outlook) : Order → Option String
  | .prepare => none
  | o => w.refusal o

/-- The request to fly the mission of a flight. -/
def Flight.activation (f : Flight) (startItem : Nat) (restart : Bool) : Activation where
  restart
  interpreter := f.record.mission.kind.interpreter
  startItem
  lostLink := if f.record.mission.rth.onDisconnection then .returnHome else .goOn

/-- Why an activation is attempted. -/
inductive Cause where
  /-- The mission is started, at once or when the camera has settled. -/
  | launch
  /-- A paused mission is resumed, at once or when the camera has settled. -/
  | resume
  /-- Old media are deleted, and the mission is started at an item. -/
  | cleanedUp (startItem : Nat)
  deriving DecidableEq, Repr

def Settling.cause (s : Settling) : Cause :=
  if s.restart then .launch else .resume

namespace Engine

/-- How a launch begins: not at all if take-off is not allowed, with old media to be deleted, or
with the activation. -/
def launchOrder? (e : Engine) (w : Outlook) : Option Order :=
  e.flight.bind fun f =>
    if e.facts.landed && !w.mayTakeOff then none
    else if f.record.cursor.lastItem = 0 || !e.facts.resumes then
      some (.activate (f.activation 0 true))
    else
      match f.record.recovery.filter (· ≠ "") with
      | some resource => some (.cleanUp f.record.missionId resource)
      | none => some (.activate (f.activation f.record.cursor.lastItem true))

/-- The order that an attempt begins with. -/
def attempt? (e : Engine) (w : Outlook) : Cause → Option Order
  | .launch => e.launchOrder? w
  | .resume => e.flight.map fun f => .activate (f.activation f.record.cursor.lastItem false)
  | .cleanedUp startItem => e.flight.map fun f => .activate (f.activation startItem true)

/-- What was put off until the camera has settled. -/
def settled? (e : Engine) (camera : Camera) : Option Cause :=
  if camera.isSettled then e.settling.map Settling.cause else none

/-- The activation that an input has attempted. -/
def cause? (e : Engine) : Input → Option Cause
  | .wish .play =>
    if e.flight.isSome && !decide e.state.phase.IsFlying && e.facts.isReady &&
      e.facts.camera.isSettled then some .launch else none
  | .wish .unpause =>
    if e.state.phase = .paused && e.facts.isPaused && e.facts.camera.isSettled then some .resume
    else none
  | .poll => e.settled? e.facts.camera
  | .notice (.camera camera) => e.settled? camera
  | .notice (.cleanedUp missionId .done) =>
    if e.intent = .playing then
      (e.cleanUp.filter (·.missionId = missionId)).map (.cleanedUp ·.startItem)
    else none
  | _ => none

/-- What the aircraft is told if it flies a mission that nobody wants flown. -/
def correction (e : Engine) : List Order :=
  match e.state.phase, e.intent with
  | .failed _, .paused | .paused, .paused | .idle, .paused => [.deactivate]
  | .playing, _ | .returning, _ => []
  | _, .stopped => [.stop]
  | _, _ => []

/-- The orders of an input that are no attempt at an activation. -/
def directOrders (e : Engine) : Input → List Order
  | .wish .play =>
    if e.flight.isSome && !decide e.state.phase.IsFlying && e.facts.isReady then [.prepare] else []
  | .wish .pause => if e.state.phase = .playing then [.deactivate] else []
  | .wish (.stop _) => if e.flight.isSome then [.stop] else []
  | .notice (.interface report) => if report.any (·.state = .active) then e.correction else []
  | .notice (.returnHome active reason) =>
    if active && reason = .plan && !decide e.state.phase.IsRunning && e.intent ≠ .playing then
      [.stop]
    else []
  | .timeout missionId =>
    if e.missionId? = some missionId ∧ e.watch.activatingId? = some missionId then [.stop] else []
  | _ => []

/-- The orders that an input brings about. -/
def orders (e : Engine) (w : Outlook) (i : Input) : List Order :=
  e.directOrders i ++ ((e.cause? i).bind (e.attempt? w)).toList

/-- An order given in the present state. -/
def dispatch (e : Engine) (w : Outlook) (o : Order) : Dispatch :=
  ⟨e.state, o, w.answer o⟩

variable {e : Engine} {s : State} {w : Outlook}

theorem dispatch_of_state {d : Engine} (h : d.state = e.state) : d.dispatch w = e.dispatch w := by
  funext o
  rw [dispatch, dispatch, h]

theorem IsTold.given_order (h : e.IsTold s) {o : Order} (ho : w.answer o = w.refusal o) :
    (e.order w o).given s = e.given s ++ [e.dispatch w o] := by
  rw [Engine.given_order, h, dispatch, ho]

/-! ### Attempts -/

theorem given_activate (h : e.IsTold s) (item : Nat) (restart : Bool) :
    (e.activate w item restart).given s =
      e.given s ++ (e.flight.map fun f => Order.activate (f.activation item restart)).toList.map
        (e.dispatch w) := by
  unfold activate
  cases e.flight with
  | none => exact (List.append_nil _).symm
  | some f =>
    dsimp only
    split
    · rw [given_fail]
      exact h.given_order rfl
    · exact h.given_order rfl

theorem given_cleanUpFirst (h : e.IsTold s) (missionId resource : String) (item : Nat) :
    (e.cleanUpFirst w missionId resource item).given s =
      e.given s ++ [e.dispatch w (.cleanUp missionId resource)] := by
  unfold cleanUpFirst
  dsimp only
  split
  · rw [given_fail]
    exact h.given_order rfl
  · exact h.given_order rfl

theorem given_launch (h : e.IsTold s) :
    (e.launch w).given s = e.given s ++ (e.attempt? w .launch).toList.map (e.dispatch w) := by
  show _ = e.given s ++ (e.launchOrder? w).toList.map (e.dispatch w)
  unfold launch launchOrder?
  cases hf : e.flight with
  | none => exact (List.append_nil _).symm
  | some f =>
    have hd : ({ e with flight := some f, intent := .playing } : Engine).IsTold s := h
    dsimp only [Option.bind_some]
    split
    · rw [given_setState, given_setWatch]
      exact (List.append_nil _).symm
    · split
      · exact given_activate hd 0 true
      · cases f.record.recovery.filter (· ≠ "") with
        | some resource => exact given_cleanUpFirst hd _ resource _
        | none => exact given_activate hd _ true

theorem given_resume (h : e.IsTold s) :
    (e.resume w).given s = e.given s ++ (e.attempt? w .resume).toList.map (e.dispatch w) := by
  unfold resume attempt?
  cases hf : e.flight with
  | none => exact (List.append_nil _).symm
  | some f =>
    have hd : ({ e with flight := some f, intent := .playing } : Engine).IsTold s := h
    exact given_activate hd _ false

theorem given_launchOrResume (h : e.IsTold s) (restart : Bool) :
    (e.launchOrResume w restart).given s =
      e.given s ++ (e.attempt? w (Settling.cause { restart })).toList.map (e.dispatch w) := by
  unfold launchOrResume Settling.cause
  cases restart with
  | true => exact given_launch h
  | false => exact given_resume h

theorem given_whenSettled (h : e.IsTold s) (restart : Bool) :
    (e.whenSettled w restart).given s =
      e.given s ++ if e.facts.camera.isSettled then
        (e.attempt? w (Settling.cause { restart })).toList.map (e.dispatch w) else [] := by
  unfold whenSettled
  split
  · exact given_launchOrResume h restart
  · exact (List.append_nil _).symm

theorem given_poll (h : e.IsTold s) :
    (e.poll w).given s =
      e.given s ++ ((e.settled? e.facts.camera).bind (e.attempt? w)).toList.map (e.dispatch w) := by
  unfold poll settled?
  cases hs : e.settling with
  | none => simp
  | some d =>
    dsimp only
    split
    · have hd : ({ e with settling := none } : Engine).IsTold s := h
      exact given_launchOrResume hd d.restart
    · split
      · rw [given_fail]
        exact (List.append_nil _).symm
      · exact (List.append_nil _).symm

/-! ### Wishes -/

theorem given_play (h : e.IsTold s) :
    (e.play w).given s = e.given s ++ (e.orders w (.wish .play)).map (e.dispatch w) := by
  unfold play orders directOrders cause?
  cases hf : e.flight with
  | none => simp
  | some f =>
    dsimp only
    split
    · next hs => simp [hs, State.phase, Phase.IsFlying]
    · next hs => simp [hs, State.phase, Phase.IsFlying]
    · next hp hr =>
      have hg : ¬ e.state.phase.IsFlying := State.not_isFlying hp hr
      split
      · next hy =>
        have ht : (e.tell (.order .prepare none)).IsTold s := IsTold.tell h rfl
        have hg' : (e.tell (.order .prepare none)).given s = e.given s ++ [e.dispatch w .prepare] := by
          rw [given_tell, h]
          rfl
        refine (given_whenSettled (ht.setWatch (.activating f.record)) true).trans ?_
        show _ ++ (if e.facts.camera.isSettled then
          (e.attempt? w .launch).toList.map (e.dispatch w) else []) = _
        rw [given_setWatch, hg']
        cases hc : e.facts.camera.isSettled <;> simp [hg, hy]
      · next hy => simp [hg, hy]

theorem given_pause (h : e.IsTold s) :
    (e.pause w).given s = e.given s ++ (e.orders w (.wish .pause)).map (e.dispatch w) := by
  unfold pause orders directOrders cause?
  cases hs : e.state with
  | playing connected x homeward =>
    have hd : ({ ({ e with counting := false, settling := none } : Engine).setWatch .none with
        intent := .paused } : Engine).IsTold s :=
      IsTold.setWatch (e := { e with counting := false, settling := none }) h .none
    refine (IsTold.given_order hd rfl).trans ?_
    refine congrArg (· ++ [e.dispatch w .deactivate]) ?_
    exact given_setWatch { e with counting := false, settling := none } s .none
  | _ => simp [State.phase]

theorem given_unpause (h : e.IsTold s) :
    (e.unpause w).given s = e.given s ++ (e.orders w (.wish .unpause)).map (e.dispatch w) := by
  unfold unpause orders directOrders cause?
  cases hs : e.state with
  | paused connected x availability =>
    dsimp only
    split
    · next hp =>
      cases hf : e.flight with
      | none => cases hc : e.facts.camera.isSettled <;> simp [State.phase, hp, attempt?, hf]
      | some f =>
        refine (given_whenSettled (IsTold.setWatch h (.activating f.record)) false).trans ?_
        show _ ++ (if e.facts.camera.isSettled then
          (e.attempt? w .resume).toList.map (e.dispatch w) else []) = _
        rw [given_setWatch]
        cases hc : e.facts.camera.isSettled <;> simp [State.phase, hp]
    · next hp => simp [hp]
  | _ => simp [State.phase]

theorem orders_stop (e : Engine) (w : Outlook) (forced : Bool) :
    e.orders w (.wish (.stop forced)) = if e.flight.isSome then [.stop] else [] :=
  List.append_nil _

theorem given_stop (h : e.IsTold s) (forced : Bool) :
    (e.stop w forced).given s = e.given s ++ (e.orders w (.wish (.stop forced))).map (e.dispatch w) := by
  unfold stop orders directOrders cause?
  dsimp only
  cases hf : e.flight with
  | none => exact (List.append_nil _).symm
  | some f =>
    dsimp only
    split
    · refine IsTold.given_order (o := .stop) ?_ rfl
      exact h
    · rw [given_finish]
      refine IsTold.given_order (o := .stop) ?_ rfl
      exact h

theorem given_catchUp (e : Engine) (s : State) (item : Nat) (recovery : Option String)
    (elapsed : Clock.Span) : (e.catchUp item recovery elapsed).given s = e.given s := by
  unfold catchUp
  split
  · rfl
  · rw [given_start, given_commit, given_showElapsed]
    rfl

theorem given_update (e : Engine) (s : State) (x : Execution) :
    (e.update x).given s = e.given s := by
  unfold update
  split
  · rfl
  · split
    · dsimp only
      split
      · rw [given_setState, given_refreshWatch]
        rfl
      · rw [given_refreshWatch]
        rfl
    · rfl

theorem given_setAvailability (e : Engine) (s : State) (a : Availability) :
    (e.setAvailability a).given s = e.given s := by
  unfold setAvailability
  dsimp only
  split
  · rw [given_setState]
    rfl
  · split
    · rw [given_finish]
      rfl
    · rw [given_setState]
      rfl
  · rfl

theorem given_heed (h : e.IsTold s) (x : Wish) :
    (e.heed w x).given s = e.given s ++ (e.orders w (.wish x)).map (e.dispatch w) := by
  cases x with
  | setup x t =>
    refine Eq.trans ?_ (List.append_nil _).symm
    show (e.setup x t).given s = e.given s
    unfold setup
    rw [given_setState]
    exact given_unload e s
  | play => exact given_play h
  | pause => exact given_pause h
  | unpause => exact given_unpause h
  | stop forced => exact given_stop h forced
  | reset => exact (given_unload e s).trans (List.append_nil _).symm
  | catchUp item recovery elapsed =>
    exact (given_catchUp e s item recovery elapsed).trans (List.append_nil _).symm
  | update x => exact (given_update e s x).trans (List.append_nil _).symm
  | setAvailability a => exact (given_setAvailability e s a).trans (List.append_nil _).symm

/-! ### Notices -/

theorem given_onActive (h : e.IsTold s) :
    (e.onActive w).given s = e.given s ++ e.correction.map (e.dispatch w) := by
  have hstop := h.given_order (w := w) (o := .stop) rfl
  have hdeactivate := h.given_order (w := w) (o := .deactivate) rfl
  unfold onActive correction
  cases e.state with
  | playing | returning => exact (List.append_nil _).symm
  | failed | paused | idle =>
    cases e.intent with
    | none => exact (List.append_nil _).symm
    | playing => exact (given_start e s).trans (List.append_nil _).symm
    | paused => exact hdeactivate
    | stopped => exact hstop
  | noMission | ended =>
    cases e.intent with
    | none | playing | paused => exact (List.append_nil _).symm
    | stopped => exact (given_unload _ s).trans hstop

theorem orders_interface (e : Engine) (w : Outlook) (report : Option Report) :
    e.orders w (.notice (.interface report)) =
      if report.any (·.state = .active) then e.correction else [] :=
  List.append_nil _

theorem given_onInterface (h : e.IsTold s) (report : Option Report) :
    (e.onInterface w report).given s =
      e.given s ++ (e.orders w (.notice (.interface report))).map (e.dispatch w) := by
  have hr := registers_takeIn e report
  have hp : (e.takeIn report).state.phase = e.state.phase := congrArg Registers.phase hr
  have hi : (e.takeIn report).intent = e.intent := congrArg Registers.intent hr
  have hc : (e.takeIn report).correction = e.correction := by
    unfold correction
    rw [hp, hi]
  rw [onInterface_eq, orders_interface]
  split
  · rw [given_onActive (h.takeIn report), given_takeIn, hc]
    by_cases hplaying : e.state.phase = .playing
    · have hn : e.correction = [] := by simp [correction, hplaying]
      rw [hn]
      rfl
    · rw [dispatch_of_state (state_takeIn hplaying report)]
  · rw [given_onIdle, given_takeIn]
    exact (List.append_nil _).symm

theorem orders_returnHome (e : Engine) (w : Outlook) (active : Bool) (reason : ReturnReason) :
    e.orders w (.notice (.returnHome active reason)) =
      if active && reason = .plan && !decide e.state.phase.IsRunning && e.intent ≠ .playing then
        [.stop]
      else [] :=
  List.append_nil _

theorem given_onReturnHome (h : e.IsTold s) (active : Bool) (reason : ReturnReason) :
    (e.onReturnHome w active reason).given s =
      e.given s ++ (e.orders w (.notice (.returnHome active reason))).map (e.dispatch w) := by
  have hstop := h.given_order (w := w) (o := .stop) rfl
  rw [orders_returnHome]
  unfold onReturnHome
  split
  · next hr =>
    rw [hr, Bool.true_and]
    cases hs : e.state with
    | returning x => simp [State.phase, Phase.IsRunning, Phase.IsFlying]
    | playing connected x homeward =>
      cases connected <;> simp [State.phase, Phase.IsRunning, Phase.IsFlying]
    | paused connected x availability =>
      cases connected <;> simp [State.phase, Phase.IsRunning, Phase.IsFlying]
    | noMission | idle | failed | ended =>
      by_cases hi : e.intent = .playing <;>
        simp [State.phase, Phase.IsRunning, Phase.IsFlying, hi, hstop]
  · next hr =>
    rw [if_neg (by simp [hr])]
    exact (List.append_nil _).symm

theorem given_onConnection (e : Engine) (s : State) (connected : Bool) :
    (e.onConnection connected).given s = e.given s := by
  unfold onConnection
  dsimp only
  repeat' split
  all_goals first
    | rfl
    | exact given_setState _ s _

theorem given_onCamera (h : e.IsTold s) (camera : Camera) :
    (e.onCamera w camera).given s =
      e.given s ++ (e.orders w (.notice (.camera camera))).map (e.dispatch w) := by
  have hd : ({ e with facts := { e.facts with camera } } : Engine).IsTold s := h
  show _ = e.given s ++ ((e.settled? camera).bind (e.attempt? w)).toList.map (e.dispatch w)
  unfold onCamera
  dsimp only
  split
  · exact given_poll hd
  · next hn =>
    have hc : e.settled? camera = none := by
      unfold settled?
      split
      · next hy => simpa [hy] using hn
      · rfl
    rw [hc]
    exact (List.append_nil _).symm

/-- Deleted media matter while they are waited for and the mission is wanted. -/
theorem cause?_cleanedUp (e : Engine) (missionId : String) :
    e.cause? (.notice (.cleanedUp missionId .done)) =
      if e.intent = .playing then
        (e.cleanUp.filter (·.missionId = missionId)).map (.cleanedUp ·.startItem)
      else none :=
  rfl

theorem given_onCleanedUp (h : e.IsTold s) (missionId : String) (result : CleanUpResult) :
    (e.onCleanedUp w missionId result).given s =
      e.given s ++ (e.orders w (.notice (.cleanedUp missionId result))).map (e.dispatch w) := by
  have hd : ({ e with cleanUp := none } : Engine).IsTold s := h
  unfold onCleanedUp
  cases result with
  | canceled =>
    refine Eq.trans ?_ (List.append_nil _).symm
    split
    · rfl
    · split
      · dsimp only
        split
        · exact given_fail _ s _
        · rfl
      · rfl
  | done =>
    show _ = e.given s ++
      ((e.cause? (.notice (.cleanedUp missionId .done))).bind (e.attempt? w)).toList.map (e.dispatch w)
    rw [cause?_cleanedUp]
    cases hc : e.cleanUp with
    | none => simp
    | some c =>
      dsimp only
      by_cases hid : c.missionId = missionId
      · have hfil : (some c).filter (·.missionId = missionId) = some c := by simp [hid]
        rw [if_pos hid, hfil]
        by_cases hi : e.intent = .playing
        · rw [if_pos hi, if_pos hi]
          exact given_activate hd c.startItem true
        · rw [if_neg hi, if_neg hi]
          exact (List.append_nil _).symm
      · rw [if_neg hid]
        simp [hid]

theorem given_notice (h : e.IsTold s) (n : Notice) :
    (e.notice w n).given s = e.given s ++ (e.orders w (.notice n)).map (e.dispatch w) := by
  cases n with
  | interface report => exact given_onInterface h report
  | returnHome active reason => exact given_onReturnHome h active reason
  | connection connected =>
    exact (given_onConnection e s connected).trans (List.append_nil _).symm
  | landed | position => exact (List.append_nil _).symm
  | camera camera => exact given_onCamera h camera
  | cleanedUp missionId result => exact given_onCleanedUp h missionId result

/-! ### Steps -/

theorem given_tick {e' : Engine} (ht : e.tick = .ok e') : e'.given s = e.given s := by
  unfold tick at ht
  split at ht
  · cases ht
    rfl
  · next f _ =>
    split at ht
    · cases hd : f.elapsed.add e.settings.tick with
      | error fault =>
        rw [hd] at ht
        cases ht
      | ok elapsed =>
        rw [hd] at ht
        cases ht
        rw [given_advance]
        exact given_showElapsed _ s elapsed
    · cases ht
      rfl

theorem orders_timeout (e : Engine) (w : Outlook) (missionId : String) :
    e.orders w (.timeout missionId) =
      if e.missionId? = some missionId ∧ e.watch.activatingId? = some missionId then [.stop] else [] :=
  List.append_nil _

theorem given_timeout (h : e.IsTold s) (missionId : String) :
    (e.timeout w missionId).given s =
      e.given s ++ (e.orders w (.timeout missionId)).map (e.dispatch w) := by
  rw [orders_timeout]
  unfold timeout
  split
  · rw [given_setState, given_setWatch]
    refine IsTold.given_order (o := .stop) ?_ rfl
    exact h
  · exact (List.append_nil _).symm

theorem given_handle {e' : Engine} {i : Input} (h : e.IsTold s) (hs : e.handle w i = .ok e') :
    e'.given s = e.given s ++ (e.orders w i).map (e.dispatch w) := by
  cases i with
  | wish x => cases hs; exact given_heed h x
  | notice n => cases hs; exact given_notice h n
  | tick => exact (given_tick hs).trans (List.append_nil _).symm
  | poll => cases hs; exact given_poll h
  | timeout missionId => cases hs; exact given_timeout h missionId

/-- **A step gives the orders of its input, all of them in the state it begins in.** -/
theorem dispatches_step {e' : Engine} {i : Input} {log : List Effect}
    (hs : e.step w i = .ok (e', log)) :
    dispatches e.state log = (e.orders w i).map (e.dispatch w) := by
  obtain ⟨e₁, hh, -, rfl⟩ := handle_of_step hs
  have ht : ({ e with log := [] } : Engine).IsTold e.state := rfl
  exact given_handle ht hh

theorem sent_step {e' : Engine} {i : Input} {log : List Effect}
    (hs : e.step w i = .ok (e', log)) : sent log = e.orders w i := by
  rw [← map_order_dispatches e.state, dispatches_step hs, List.map_map]
  exact List.map_id _

/-- An order is given in the state that the step begins in. -/
theorem state_of_mem_dispatches {e' : Engine} {i : Input} {log : List Effect}
    (hs : e.step w i = .ok (e', log)) {d : Dispatch} (hd : d ∈ dispatches e.state log) :
    d.state = e.state := by
  rw [dispatches_step hs] at hd
  obtain ⟨o, -, rfl⟩ := List.mem_map.mp hd
  rfl

end Engine
end Sortie.Run
