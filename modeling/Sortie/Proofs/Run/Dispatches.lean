import Sortie.Proofs.Run.Registers
import Sortie.Run.Listener

/-!
# Orders in a log

A log lists what the engine did in a step, so it also tells in which state of the run each order
was given: `dispatches` reads the orders off a log together with that state.  Most operations give
no order, and each of those has a lemma here that says so (`given_start`, `given_commit`, …).

`IsTold` says that the log has kept up with the state.  A state is told whenever it changes, so an
order given later is listed with the state that the engine is in (`IsTold.setState`).
-/

namespace Sortie.Run

/-- The state that an effect tells of. -/
def Effect.state? : Effect → Option State
  | .event (.stateChanged s) => some s
  | .event _ | .order .. | .show _ => none

/-- The state of a run after a log, if it was `s` before. -/
def told (s : State) (log : List Effect) : State :=
  log.foldl (fun s x => x.state?.getD s) s

/-- The order to fly the mission. -/
def Order.activates : Order → Bool
  | activate _ => true
  | prepare | deactivate | stop | cleanUp .. => false

/-- An order with the state of the run when it was given, and why it was refused, if it was. -/
structure Dispatch where
  state : State
  order : Order
  refusal : Option String
  deriving DecidableEq, Repr

/-- The orders of a log, if the state of the run was `s` before. -/
def dispatches (s : State) : List Effect → List Dispatch
  | [] => []
  | .order o refusal :: log => ⟨s, o, refusal⟩ :: dispatches s log
  | .event x :: log => dispatches ((Effect.event x).state?.getD s) log
  | .show _ :: log => dispatches s log

/-- The orders of a log, whatever the state. -/
def sent (log : List Effect) : List Order :=
  (log.filterMap Effect.order?).map Prod.fst

theorem map_order_dispatches (s : State) (log : List Effect) :
    (dispatches s log).map (·.order) = sent log := by
  induction log generalizing s with
  | nil => rfl
  | cons x log ih =>
    rcases x with ⟨o, refusal⟩ | x | c
    · exact congrArg (o :: ·) (ih s)
    · exact ih _
    · exact ih s

theorem told_append (s : State) (log more : List Effect) :
    told s (log ++ more) = told (told s log) more := by
  simp [told, List.foldl_append]

theorem dispatches_append (s : State) (log more : List Effect) :
    dispatches s (log ++ more) = dispatches s log ++ dispatches (told s log) more := by
  induction log generalizing s with
  | nil => rfl
  | cons x log ih => cases x <;> simp [dispatches, told, ih, Effect.state?]

namespace Engine

/-- The orders given so far in a step that began in state `s`. -/
def given (e : Engine) (s : State) : List Dispatch :=
  dispatches s e.log

/-- The log of a step that began in state `s` tells of every change of the state. -/
def IsTold (e : Engine) (s : State) : Prop :=
  told s e.log = e.state

variable {e : Engine} {s : State}

/-! ### Operations that give no order -/

theorem given_tell (e : Engine) (s : State) (x : Effect) :
    (e.tell x).given s = e.given s ++ dispatches (told s e.log) [x] :=
  dispatches_append s e.log [x]

@[simp] theorem given_emit (e : Engine) (s : State) (x : Event) :
    (e.emit x).given s = e.given s := by
  unfold emit
  rw [given_tell]
  exact List.append_nil _

@[simp] theorem given_show (e : Engine) (s : State) (c : Channel) :
    (e.tell (.show c)).given s = e.given s := by
  rw [given_tell]
  exact List.append_nil _

theorem given_order (e : Engine) (s : State) (w : Outlook) (o : Order) :
    (e.order w o).given s = e.given s ++ [⟨told s e.log, o, w.refusal o⟩] :=
  given_tell e s _

@[simp] theorem given_showProgress (e : Engine) (s : State) (x : Float) :
    (e.showProgress x).given s = e.given s := by
  unfold showProgress
  split
  · rfl
  · exact given_show _ s .progress

@[simp] theorem given_showElapsed (e : Engine) (s : State) (d : Clock.Span) :
    (e.showElapsed d).given s = e.given s := by
  unfold showElapsed
  split
  · rfl
  · exact given_show _ s .elapsed

@[simp] theorem given_showDistance (e : Engine) (s : State) (x : Float) :
    (e.showDistance x).given s = e.given s := by
  unfold showDistance
  split
  · rfl
  · exact given_show _ s .distance

@[simp] theorem given_showNavigating (e : Engine) (s : State) (b : Bool) :
    (e.showNavigating b).given s = e.given s := by
  unfold showNavigating
  split
  · rfl
  · exact given_show _ s .navigating

@[simp] theorem given_showReady (e : Engine) (s : State) (b : Bool) :
    (e.showReady b).given s = e.given s := by
  unfold showReady
  split
  · rfl
  · exact given_show _ s .ready

@[simp] theorem given_setState (e : Engine) (s t : State) :
    (e.setState t).given s = e.given s := by
  unfold setState
  split
  · rfl
  · rw [given_emit]
    exact given_show _ s .state

@[simp] theorem given_setWatch (e : Engine) (s : State) (w : Watch) :
    (e.setWatch w).given s = e.given s :=
  given_show _ s .watch

@[simp] theorem given_refreshWatch (e : Engine) (s : State) :
    e.refreshWatch.given s = e.given s := by
  unfold refreshWatch
  split
  · exact given_setWatch e s _
  · rfl

@[simp] theorem given_commit (e : Engine) (s : State) : e.commit.given s = e.given s := by
  unfold commit
  split
  · rfl
  · next f _ =>
    rw [given_emit]
    exact given_refreshWatch { e with flight := some f.commit } s

@[simp] theorem given_advance (e : Engine) (s : State) : e.advance.given s = e.given s := by
  unfold advance
  split
  · rfl
  · split
    · exact given_showNavigating e s true
    · dsimp only
      split
      · exact given_showNavigating e s false
      · rw [given_emit, given_showDistance, given_showProgress]
        exact given_showNavigating e s false

@[simp] theorem given_reach (e : Engine) (s : State) (item : Nat) :
    (e.reach item).given s = e.given s := by
  unfold reach
  split
  · rfl
  · split
    · dsimp only
      split
      · rw [given_setState, given_refreshWatch]
        exact given_emit _ s _
      · exact given_emit _ s _
    · rfl

@[simp] theorem given_start (e : Engine) (s : State) : e.start.given s = e.given s := by
  unfold start
  split
  · rfl
  · rw [given_setState, given_setWatch, given_advance]
    rfl

@[simp] theorem given_hold (e : Engine) (s : State) : e.hold.given s = e.given s := by
  unfold hold
  dsimp only
  split
  · exact given_commit { e with counting := false, intent := .paused } s
  · rw [given_setState, given_setWatch, given_commit]
    rfl

@[simp] theorem given_finish (e : Engine) (s : State) : e.finish.given s = e.given s := by
  unfold finish
  dsimp only
  split
  · exact given_commit { e with counting := false, settling := none, cleanUp := none } s
  · rw [given_setState, given_setWatch]
    split
    · rw [given_emit, given_commit]
      rfl
    · rw [given_commit]
      rfl

@[simp] theorem given_unload (e : Engine) (s : State) : e.unload.given s = e.given s := by
  unfold unload
  dsimp only
  rw [given_setState, given_showNavigating, given_showDistance, given_showProgress,
    given_showElapsed]
  split
  · exact given_setWatch e s .none
  · rfl

@[simp] theorem given_fail (e : Engine) (s : State) (f : Failure) :
    (e.fail f).given s = e.given s := by
  unfold fail
  rw [given_setState, given_setWatch]
  rfl

@[simp] theorem given_takeIn (e : Engine) (s : State) (report : Option Report) :
    (e.takeIn report).given s = e.given s := by
  unfold takeIn
  cases report with
  | none => exact given_showReady _ s _
  | some r =>
    dsimp only
    split
    · rw [given_reach]
      exact given_showReady _ s _
    · exact given_showReady _ s _

@[simp] theorem given_onIdle (e : Engine) (s : State) (isPaused : Bool) :
    (e.onIdle isPaused).given s = e.given s := by
  have hd : (({ e with counting := false } : Engine).showNavigating false).given s = e.given s :=
    given_showNavigating _ s false
  unfold onIdle
  dsimp only
  repeat' split
  all_goals simp only [given_hold, given_finish, hd]

/-! ### What the log tells of the state -/

theorem IsTold.tell (h : e.IsTold s) {x : Effect} (hx : x.state? = none) : (e.tell x).IsTold s := by
  show told s (e.log ++ [x]) = e.state
  rw [told_append, h]
  show x.state?.getD e.state = e.state
  rw [hx]
  rfl

theorem IsTold.setWatch (h : e.IsTold s) (w : Watch) : (e.setWatch w).IsTold s :=
  IsTold.tell (e := { e with watch := w }) h rfl

theorem IsTold.refreshWatch (h : e.IsTold s) : e.refreshWatch.IsTold s := by
  unfold Engine.refreshWatch
  split
  · exact h.setWatch _
  · exact h

theorem IsTold.showReady (h : e.IsTold s) (b : Bool) : (e.showReady b).IsTold s := by
  unfold Engine.showReady
  split
  · exact h
  · exact IsTold.tell (e := { e with board := { e.board with ready := b } }) h rfl

theorem IsTold.setState (h : e.IsTold s) (t : State) : (e.setState t).IsTold s := by
  unfold Engine.setState
  split
  · exact h
  · show told s (e.log ++ [.show .state] ++ [.event (.stateChanged t)]) = t
    rw [told_append]
    rfl

theorem IsTold.reach (h : e.IsTold s) (item : Nat) : (e.reach item).IsTold s := by
  unfold Engine.reach
  split
  · exact h
  · next f _ =>
    split
    · have hd : (({ e with flight := some { f with latest := some item } } : Engine).emit
          (.itemReached item)).IsTold s := IsTold.tell h rfl
      dsimp only
      split
      · refine IsTold.setState (IsTold.refreshWatch ?_) _
        exact hd
      · exact hd
    · exact h

theorem IsTold.takeIn (h : e.IsTold s) (report : Option Report) : (e.takeIn report).IsTold s := by
  have hd : (({ e with facts := { e.facts with report } } : Engine).showReady
      (report.any Report.isReady)).IsTold s := by
    refine IsTold.showReady ?_ _
    exact h
  unfold Engine.takeIn
  cases report with
  | none => exact hd
  | some r =>
    dsimp only
    split
    · refine IsTold.reach ?_ _
      exact hd
    · exact hd

end Engine

end Sortie.Run
