import Sortie.Proofs.Run.Items

/-!
# Records committed in a step

A record that is committed is told in the log and put down to be kept next.  There is room for one
record only: a second one in the same step would take the place of the first.  `Engine.ledger` is
what a step has committed so far, with the record put down.  All operations but `commit` leave the
ledger as it is (`ledger_start`, `ledger_poll`, …), and every operation that commits does so at most
once (`Books`).  So a step commits at most one record, and this is the one put down at its end
(`booked_step`).
-/

namespace Sortie.Run

/-- The records that a log tells to be committed. -/
def committed (log : List Effect) : List Execution :=
  (entries log).filterMap Entry.record?

theorem committed_append (log more : List Effect) :
    committed (log ++ more) = committed log ++ committed more := by
  simp [committed, entries]

/-- The records committed in a step, and the one to be kept next. -/
structure Ledger where
  committed : List Execution
  unsaved : Option Execution

def Ledger.enter (l : Ledger) (x : Execution) : Ledger :=
  ⟨l.committed ++ [x], some x⟩

namespace Engine

def ledger (e : Engine) : Ledger :=
  ⟨committed e.log, e.unsaved⟩

variable {e e' d : Engine} {w : Outlook}

/-! ### Operations that commit nothing -/

theorem ledger_tell (e : Engine) {x : Effect} (h : committed [x] = []) :
    (e.tell x).ledger = e.ledger := by
  show (⟨committed (e.log ++ [x]), e.unsaved⟩ : Ledger) = _
  rw [committed_append, h, List.append_nil]
  rfl

@[simp] theorem ledger_order (e : Engine) (w : Outlook) (o : Order) :
    (e.order w o).ledger = e.ledger :=
  e.ledger_tell rfl

@[simp] theorem ledger_setState (e : Engine) (s : State) : (e.setState s).ledger = e.ledger := by
  unfold setState
  split
  · rfl
  · exact (ledger_tell _ rfl).trans (ledger_tell _ rfl)

@[simp] theorem ledger_setWatch (e : Engine) (v : Watch) : (e.setWatch v).ledger = e.ledger :=
  ledger_tell { e with watch := v } rfl

@[simp] theorem ledger_refreshWatch (e : Engine) : e.refreshWatch.ledger = e.ledger := by
  unfold refreshWatch
  split
  · exact ledger_setWatch e _
  · rfl

@[simp] theorem ledger_showProgress (e : Engine) (x : Float) :
    (e.showProgress x).ledger = e.ledger := by
  unfold showProgress
  split
  · rfl
  · exact ledger_tell _ rfl

@[simp] theorem ledger_showElapsed (e : Engine) (d : Clock.Span) :
    (e.showElapsed d).ledger = e.ledger := by
  unfold showElapsed
  split
  · rfl
  · exact ledger_tell _ rfl

@[simp] theorem ledger_showDistance (e : Engine) (x : Float) :
    (e.showDistance x).ledger = e.ledger := by
  unfold showDistance
  split
  · rfl
  · exact ledger_tell _ rfl

@[simp] theorem ledger_showNavigating (e : Engine) (b : Bool) :
    (e.showNavigating b).ledger = e.ledger := by
  unfold showNavigating
  split
  · rfl
  · exact ledger_tell _ rfl

@[simp] theorem ledger_showReady (e : Engine) (b : Bool) : (e.showReady b).ledger = e.ledger := by
  unfold showReady
  split
  · rfl
  · exact ledger_tell _ rfl

@[simp] theorem ledger_advance (e : Engine) : e.advance.ledger = e.ledger := by
  unfold advance
  split
  · rfl
  · split
    · exact ledger_showNavigating e true
    · dsimp only
      split
      · exact ledger_showNavigating e false
      · refine (ledger_tell _ rfl).trans ?_
        rw [ledger_showDistance, ledger_showProgress]
        exact ledger_showNavigating e false

@[simp] theorem ledger_reach (e : Engine) (item : Nat) : (e.reach item).ledger = e.ledger := by
  unfold reach
  split
  · rfl
  · split
    · dsimp only
      split
      · rw [ledger_setState, ledger_refreshWatch]
        exact ledger_tell _ rfl
      · exact ledger_tell _ rfl
    · rfl

@[simp] theorem ledger_start (e : Engine) : e.start.ledger = e.ledger := by
  unfold start
  split
  · rfl
  · rw [ledger_setState, ledger_setWatch, ledger_advance]
    rfl

@[simp] theorem ledger_unload (e : Engine) : e.unload.ledger = e.ledger := by
  unfold unload
  dsimp only
  rw [ledger_setState, ledger_showNavigating, ledger_showDistance, ledger_showProgress,
    ledger_showElapsed]
  split
  · exact ledger_setWatch e .none
  · rfl

@[simp] theorem ledger_fail (e : Engine) (f : Failure) : (e.fail f).ledger = e.ledger := by
  unfold fail
  rw [ledger_setState, ledger_setWatch]
  rfl

@[simp] theorem ledger_activate (e : Engine) (w : Outlook) (item : Nat) (restart : Bool) :
    (e.activate w item restart).ledger = e.ledger := by
  unfold activate
  split
  · rfl
  · dsimp only
    split
    · rw [ledger_fail, ledger_order]
    · exact e.ledger_order w _

@[simp] theorem ledger_cleanUpFirst (e : Engine) (w : Outlook) (missionId resource : String)
    (item : Nat) : (e.cleanUpFirst w missionId resource item).ledger = e.ledger := by
  unfold cleanUpFirst
  dsimp only
  split
  · rw [ledger_fail, ledger_order]
  · exact e.ledger_order w _

@[simp] theorem ledger_launch (e : Engine) (w : Outlook) : (e.launch w).ledger = e.ledger := by
  unfold launch
  split
  · rfl
  · split
    · rw [ledger_setState, ledger_setWatch]
    · dsimp only
      split
      · exact ledger_activate _ w 0 true
      · split
        · exact ledger_cleanUpFirst _ w _ _ _
        · exact ledger_activate _ w _ true

@[simp] theorem ledger_resume (e : Engine) (w : Outlook) : (e.resume w).ledger = e.ledger := by
  unfold resume
  split
  · rfl
  · exact ledger_activate _ w _ false

@[simp] theorem ledger_launchOrResume (e : Engine) (w : Outlook) (restart : Bool) :
    (e.launchOrResume w restart).ledger = e.ledger := by
  unfold launchOrResume
  split
  · exact e.ledger_launch w
  · exact e.ledger_resume w

@[simp] theorem ledger_whenSettled (e : Engine) (w : Outlook) (restart : Bool) :
    (e.whenSettled w restart).ledger = e.ledger := by
  unfold whenSettled
  split
  · exact e.ledger_launchOrResume w restart
  · rfl

@[simp] theorem ledger_poll (e : Engine) (w : Outlook) : (e.poll w).ledger = e.ledger := by
  unfold poll
  split
  · rfl
  · split
    · rw [ledger_launchOrResume]
      rfl
    · split
      · exact e.ledger_fail _
      · rfl

/-! ### Operations that commit at most once -/

/-- At most one record has been committed since. -/
def Books (e e' : Engine) : Prop :=
  e'.ledger = e.ledger ∨ ∃ x, e'.ledger = e.ledger.enter x

theorem Books.of_eq (h : e'.ledger = e.ledger) : e.Books e' := .inl h

theorem Books.after (h : d.ledger = e.ledger) (hd : d.Books e') : e.Books e' := by
  unfold Books
  rwa [← h]

theorem Books.before (h : e'.ledger = d.ledger) (hd : e.Books d) : e.Books e' := by
  unfold Books
  rwa [h]

theorem books_commit (e : Engine) : e.Books e.commit := by
  unfold commit
  split
  · exact .inl rfl
  · next f _ =>
    have hr := ledger_refreshWatch { e with flight := some f.commit }
    refine .inr ⟨f.committed, ?_⟩
    show (⟨committed (_ ++ [.event (.recorded f.committed)]), some f.committed⟩ : Ledger) = _
    rw [committed_append]
    exact congrArg (Ledger.enter · f.committed) hr

theorem books_hold (e : Engine) : e.Books e.hold := by
  have hc := Books.after (e := e) rfl (books_commit { e with counting := false, intent := .paused })
  unfold hold
  dsimp only
  split
  · exact hc
  · exact hc.before (by rw [ledger_setState, ledger_setWatch])

theorem books_finish (e : Engine) : e.Books e.finish := by
  have hc := Books.after (e := e) rfl
    (books_commit { e with counting := false, settling := none, cleanUp := none })
  unfold finish
  dsimp only
  split
  · exact hc
  · refine hc.before ?_
    rw [ledger_setState, ledger_setWatch]
    split
    · exact ledger_tell _ rfl
    · rfl

/-! ### Wishes -/

theorem ledger_play (e : Engine) (w : Outlook) : (e.play w).ledger = e.ledger := by
  unfold play
  split
  · exact e.ledger_setState _
  · split
    · rfl
    · rfl
    · split
      · rw [ledger_whenSettled, ledger_setWatch]
        exact e.ledger_tell rfl
      · exact e.ledger_setState _

theorem ledger_pause (e : Engine) (w : Outlook) : (e.pause w).ledger = e.ledger := by
  unfold pause
  split
  · rw [ledger_order]
    exact ledger_setWatch { e with counting := false, settling := none } .none
  · rfl

theorem ledger_unpause (e : Engine) (w : Outlook) : (e.unpause w).ledger = e.ledger := by
  unfold unpause
  split
  · split
    · split
      · rfl
      · rw [ledger_whenSettled, ledger_setWatch]
    · exact e.ledger_setState _
  · rfl

theorem ledger_update (e : Engine) (x : Execution) : (e.update x).ledger = e.ledger := by
  unfold update
  split
  · rfl
  · split
    · dsimp only
      split
      · rw [ledger_setState, ledger_refreshWatch]
        rfl
      · rw [ledger_refreshWatch]
        rfl
    · rfl

theorem books_stop (e : Engine) (w : Outlook) (forced : Bool) : e.Books (e.stop w forced) := by
  let d : Engine := { e with counting := false, settling := none, cleanUp := none }
  unfold stop
  dsimp only
  split
  · exact .inl rfl
  · split
    · exact .of_eq (ledger_order d w .stop)
    · exact .after (ledger_order { d with intent := .stopped } w .stop) (books_finish _)

theorem books_catchUp (e : Engine) (item : Nat) (recovery : Option String)
    (elapsed : Clock.Span) : e.Books (e.catchUp item recovery elapsed) := by
  unfold catchUp
  split
  · exact .inl rfl
  · refine Books.before (ledger_start _) (.after ?_ (books_commit _))
    exact ledger_showElapsed _ elapsed

theorem books_setAvailability (e : Engine) (a : Availability) : e.Books (e.setAvailability a) := by
  let d : Engine := { e with facts := { e.facts with availability := a } }
  unfold setAvailability
  dsimp only
  split
  · exact .of_eq (ledger_setState d _)
  · split
    · exact books_finish d
    · exact .of_eq (ledger_setState d _)
  · exact .inl rfl

theorem books_heed (e : Engine) (w : Outlook) (x : Wish) : e.Books (e.heed w x) := by
  cases x with
  | setup x s =>
    refine .of_eq ?_
    show (e.setup x s).ledger = _
    unfold setup
    rw [ledger_setState]
    exact e.ledger_unload
  | play => exact .of_eq (e.ledger_play w)
  | pause => exact .of_eq (e.ledger_pause w)
  | unpause => exact .of_eq (e.ledger_unpause w)
  | stop forced => exact e.books_stop w forced
  | reset => exact .of_eq e.ledger_unload
  | catchUp item recovery elapsed => exact e.books_catchUp item recovery elapsed
  | update x => exact .of_eq (e.ledger_update x)
  | setAvailability a => exact e.books_setAvailability a

/-! ### Notices -/

theorem ledger_takeIn (e : Engine) (report : Option Report) :
    (e.takeIn report).ledger = e.ledger := by
  unfold takeIn
  cases report with
  | none => exact ledger_showReady _ _
  | some r =>
    dsimp only
    split
    · rw [ledger_reach]
      exact ledger_showReady _ _
    · exact ledger_showReady _ _

theorem books_onIdle (e : Engine) (isPaused : Bool) : e.Books (e.onIdle isPaused) := by
  let d : Engine := ({ e with counting := false } : Engine).showNavigating false
  have hd : d.ledger = e.ledger := ledger_showNavigating _ false
  have hkeep : e.Books d := .of_eq hd
  have hhold : e.Books d.hold := .after hd d.books_hold
  have hfinish : e.Books d.finish := .after hd d.books_finish
  unfold onIdle
  dsimp only
  repeat' split
  all_goals first | exact hkeep | exact hhold | exact hfinish

theorem ledger_onActive (e : Engine) (w : Outlook) : (e.onActive w).ledger = e.ledger := by
  unfold onActive
  repeat' split
  all_goals simp

theorem books_onInterface (e : Engine) (w : Outlook) (report : Option Report) :
    e.Books (e.onInterface w report) := by
  rw [onInterface_eq]
  split
  · exact .of_eq ((ledger_onActive _ w).trans (e.ledger_takeIn report))
  · exact .after (e.ledger_takeIn report) (books_onIdle _ _)

theorem ledger_onReturnHome (e : Engine) (w : Outlook) (active : Bool) (reason : ReturnReason) :
    (e.onReturnHome w active reason).ledger = e.ledger := by
  unfold onReturnHome
  repeat' split
  all_goals simp

theorem ledger_onConnection (e : Engine) (connected : Bool) :
    (e.onConnection connected).ledger = e.ledger := by
  unfold onConnection
  dsimp only
  repeat' split
  all_goals first | rfl | exact ledger_setState _ _

theorem ledger_onCamera (e : Engine) (w : Outlook) (camera : Camera) :
    (e.onCamera w camera).ledger = e.ledger := by
  unfold onCamera
  dsimp only
  split
  · rw [ledger_poll]
    rfl
  · rfl

theorem ledger_onCleanedUp (e : Engine) (w : Outlook) (missionId : String)
    (result : CleanUpResult) : (e.onCleanedUp w missionId result).ledger = e.ledger := by
  unfold onCleanedUp
  split
  · rfl
  · split
    · dsimp only
      split
      · cases result with
        | done => exact ledger_activate _ w _ true
        | canceled => exact ledger_fail _ _
      · rfl
    · rfl

theorem books_notice (e : Engine) (w : Outlook) (n : Notice) : e.Books (e.notice w n) := by
  cases n with
  | interface report => exact e.books_onInterface w report
  | returnHome active reason => exact .of_eq (e.ledger_onReturnHome w active reason)
  | connection connected => exact .of_eq (e.ledger_onConnection connected)
  | landed | position => exact .of_eq rfl
  | camera camera => exact .of_eq (e.ledger_onCamera w camera)
  | cleanedUp missionId result => exact .of_eq (e.ledger_onCleanedUp w missionId result)

/-! ### Steps -/

theorem ledger_tick (h : e.tick = .ok e') : e'.ledger = e.ledger := by
  unfold tick at h
  split at h
  · cases h
    rfl
  · next f _ =>
    split at h
    · cases ht : f.elapsed.add e.settings.tick with
      | error fault =>
        rw [ht] at h
        cases h
      | ok elapsed =>
        rw [ht] at h
        cases h
        rw [ledger_advance]
        exact ledger_showElapsed _ elapsed
    · cases h
      rfl

theorem ledger_timeout (e : Engine) (w : Outlook) (missionId : String) :
    (e.timeout w missionId).ledger = e.ledger := by
  unfold timeout
  split
  · rw [ledger_setState, ledger_setWatch, ledger_order]
    rfl
  · rfl

theorem books_handle {i : Input} (h : e.handle w i = .ok e') : e.Books e' := by
  cases i with
  | wish x => cases h; exact e.books_heed w x
  | notice n => cases h; exact e.books_notice w n
  | tick => exact .of_eq (ledger_tick h)
  | poll => cases h; exact .of_eq (e.ledger_poll w)
  | timeout missionId => cases h; exact .of_eq (e.ledger_timeout w missionId)

/-- **A step commits at most one record, and puts down exactly that one.** -/
theorem booked_step {i : Input} {log : List Effect} (hs : e.step w i = .ok (e', log)) :
    (committed log = [] ∧ e'.unsaved = e.unsaved) ∨
      ∃ x, committed log = [x] ∧ e'.unsaved = some x := by
  obtain ⟨e₁, hh, rfl, rfl⟩ := handle_of_step hs
  rcases books_handle hh with h | ⟨x, h⟩
  · exact .inl ⟨congrArg Ledger.committed h, congrArg Ledger.unsaved h⟩
  · exact .inr ⟨x, congrArg Ledger.committed h, congrArg Ledger.unsaved h⟩

end Engine

end Sortie.Run
