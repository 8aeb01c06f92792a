import Sortie.Proofs.Run.History
import Sortie.Proofs.Run.Registers

/-!
# What is known of the aircraft

Each input tells of at most one fact (`Facts.learn`), and whatever the engine makes of the input,
it takes over that fact and forgets no other (`facts_step`).  The link is the exception: a mission
that starts is taken for a sign that it stands.  So the facts are compared as they are while it
does (`Facts.linked`), and then the facts of an engine are the inputs of its history, read one
after another (`History.facts_eq`).
-/

namespace Sortie.Run

namespace Facts

/-- The facts after an input. -/
def learn (f : Facts) : Input → Facts
  | .notice (.interface report) => { f with report }
  | .notice (.connection connected) => { f with connected }
  | .notice (.landed landed) => { f with landed }
  | .notice (.position place) => { f with place := some place }
  | .notice (.camera camera) => { f with camera }
  | .wish (.setAvailability availability) => { f with availability }
  | _ => f

/-- The facts as they are while the link stands. -/
def linked (f : Facts) : Facts :=
  { f with connected := true }

theorem linked_learn {f g : Facts} (h : f.linked = g.linked) (i : Input) :
    (f.learn i).linked = (g.learn i).linked := by
  obtain ⟨hr, hl, hp, hc, ha⟩ : f.report = g.report ∧ f.landed = g.landed ∧ f.place = g.place ∧
      f.camera = g.camera ∧ f.availability = g.availability := by
    simpa [linked] using h
  cases i with
  | wish x => cases x <;> simp [learn, linked, hr, hl, hp, hc, ha]
  | notice n => cases n <;> simp [learn, linked, hr, hl, hp, hc, ha]
  | tick | poll | timeout => exact h

end Facts

namespace Engine

variable {e : Engine} {w : Outlook}

/-! ### Operations that learn nothing -/

@[simp] theorem facts_tell (e : Engine) (x : Effect) : (e.tell x).facts = e.facts := rfl

@[simp] theorem facts_emit (e : Engine) (x : Event) : (e.emit x).facts = e.facts := rfl

@[simp] theorem facts_order (e : Engine) (w : Outlook) (o : Order) :
    (e.order w o).facts = e.facts := rfl

@[simp] theorem facts_setWatch (e : Engine) (w : Watch) : (e.setWatch w).facts = e.facts := rfl

@[simp] theorem facts_setState (e : Engine) (s : State) : (e.setState s).facts = e.facts := by
  unfold setState
  split <;> rfl

@[simp] theorem facts_refreshWatch (e : Engine) : e.refreshWatch.facts = e.facts := by
  unfold refreshWatch
  split <;> rfl

@[simp] theorem facts_showProgress (e : Engine) (x : Float) :
    (e.showProgress x).facts = e.facts := by
  unfold showProgress
  split <;> rfl

@[simp] theorem facts_showElapsed (e : Engine) (d : Clock.Span) :
    (e.showElapsed d).facts = e.facts := by
  unfold showElapsed
  split <;> rfl

@[simp] theorem facts_showDistance (e : Engine) (x : Float) :
    (e.showDistance x).facts = e.facts := by
  unfold showDistance
  split <;> rfl

@[simp] theorem facts_showNavigating (e : Engine) (b : Bool) :
    (e.showNavigating b).facts = e.facts := by
  unfold showNavigating
  split <;> rfl

@[simp] theorem facts_showReady (e : Engine) (b : Bool) : (e.showReady b).facts = e.facts := by
  unfold showReady
  split <;> rfl

@[simp] theorem facts_commit (e : Engine) : e.commit.facts = e.facts := by
  unfold commit
  split <;> simp

@[simp] theorem facts_advance (e : Engine) : e.advance.facts = e.facts := by
  unfold advance
  split
  · rfl
  · split
    · simp
    · dsimp only
      split <;> simp

@[simp] theorem facts_reach (e : Engine) (item : Nat) : (e.reach item).facts = e.facts := by
  unfold reach
  split
  · rfl
  · split
    · dsimp only
      split <;> simp
    · rfl

@[simp] theorem facts_hold (e : Engine) : e.hold.facts = e.facts := by
  unfold hold
  dsimp only
  split <;> simp

@[simp] theorem facts_finish (e : Engine) : e.finish.facts = e.facts := by
  unfold finish
  dsimp only
  repeat' split
  all_goals simp

@[simp] theorem facts_unload (e : Engine) : e.unload.facts = e.facts := by
  unfold unload
  dsimp only
  split <;> simp

/-! ### Attempts -/

@[simp] theorem facts_fail (e : Engine) (f : Failure) : (e.fail f).facts = e.facts := by
  unfold fail
  simp

@[simp] theorem facts_activate (e : Engine) (w : Outlook) (item : Nat) (restart : Bool) :
    (e.activate w item restart).facts = e.facts := by
  unfold activate
  split
  · rfl
  · dsimp only
    split <;> simp

@[simp] theorem facts_cleanUpFirst (e : Engine) (w : Outlook) (missionId resource : String)
    (item : Nat) : (e.cleanUpFirst w missionId resource item).facts = e.facts := by
  unfold cleanUpFirst
  dsimp only
  split <;> simp

@[simp] theorem facts_launch (e : Engine) (w : Outlook) : (e.launch w).facts = e.facts := by
  unfold launch
  split
  · rfl
  · split
    · simp
    · dsimp only
      split
      · simp
      · split <;> simp

@[simp] theorem facts_resume (e : Engine) (w : Outlook) : (e.resume w).facts = e.facts := by
  unfold resume
  split <;> simp

@[simp] theorem facts_launchOrResume (e : Engine) (w : Outlook) (restart : Bool) :
    (e.launchOrResume w restart).facts = e.facts := by
  unfold launchOrResume
  split <;> simp

@[simp] theorem facts_whenSettled (e : Engine) (w : Outlook) (restart : Bool) :
    (e.whenSettled w restart).facts = e.facts := by
  unfold whenSettled
  split <;> simp

@[simp] theorem facts_poll (e : Engine) (w : Outlook) : (e.poll w).facts = e.facts := by
  unfold poll
  repeat' split
  all_goals simp

/-! ### Inputs -/

/-- A mission that starts is taken for a sign that the link stands. -/
theorem facts_start (e : Engine) : e.start.facts.linked = e.facts.linked := by
  unfold start
  split
  · rfl
  · rw [facts_setState, facts_setWatch, facts_advance]
    rfl

theorem facts_catchUp (e : Engine) (item : Nat) (recovery : Option String) (elapsed : Clock.Span) :
    (e.catchUp item recovery elapsed).facts.linked = e.facts.linked := by
  unfold catchUp
  split
  · rfl
  · rw [facts_start, facts_commit, facts_showElapsed]

theorem facts_play (e : Engine) (w : Outlook) : (e.play w).facts = e.facts := by
  unfold play
  split
  · simp
  · split
    · rfl
    · rfl
    · split <;> simp

theorem facts_pause (e : Engine) (w : Outlook) : (e.pause w).facts = e.facts := by
  unfold pause
  split <;> simp

theorem facts_unpause (e : Engine) (w : Outlook) : (e.unpause w).facts = e.facts := by
  unfold unpause
  split
  · split
    · split <;> simp
    · simp
  · rfl

theorem facts_stop (e : Engine) (w : Outlook) (forced : Bool) :
    (e.stop w forced).facts = e.facts := by
  unfold stop
  dsimp only
  split
  · rfl
  · split <;> simp

theorem facts_update (e : Engine) (x : Execution) : (e.update x).facts = e.facts := by
  unfold update
  split
  · rfl
  · split
    · dsimp only
      split <;> simp
    · rfl

theorem facts_setAvailability (e : Engine) (availability : Availability) :
    (e.setAvailability availability).facts = { e.facts with availability } := by
  unfold setAvailability
  dsimp only
  split
  · simp
  · split <;> simp
  · rfl

theorem facts_heed (e : Engine) (w : Outlook) (x : Wish) :
    (e.heed w x).facts.linked = (e.facts.learn (.wish x)).linked := by
  cases x with
  | setup x t =>
    show ((e.setup x t).facts).linked = e.facts.linked
    unfold setup
    rw [facts_setState]
    exact congrArg Facts.linked (facts_unload e)
  | play => exact congrArg Facts.linked (facts_play e w)
  | pause => exact congrArg Facts.linked (facts_pause e w)
  | unpause => exact congrArg Facts.linked (facts_unpause e w)
  | stop forced => exact congrArg Facts.linked (facts_stop e w forced)
  | reset => exact congrArg Facts.linked (facts_unload e)
  | catchUp item recovery elapsed => exact facts_catchUp e item recovery elapsed
  | update x => exact congrArg Facts.linked (facts_update e x)
  | setAvailability a => exact congrArg Facts.linked (facts_setAvailability e a)

theorem facts_takeIn (e : Engine) (report : Option Report) :
    (e.takeIn report).facts = { e.facts with report } := by
  unfold takeIn
  split
  · simp
  · dsimp only
    split <;> simp

theorem facts_onIdle (e : Engine) (isPaused : Bool) : (e.onIdle isPaused).facts = e.facts := by
  unfold onIdle
  dsimp only
  repeat' split
  all_goals simp

theorem facts_onActive (e : Engine) (w : Outlook) :
    (e.onActive w).facts.linked = e.facts.linked := by
  unfold onActive
  repeat' split
  all_goals simp [facts_start]

theorem facts_onInterface (e : Engine) (w : Outlook) (report : Option Report) :
    (e.onInterface w report).facts.linked = { e.facts with report }.linked := by
  rw [onInterface_eq]
  split
  · rw [facts_onActive, facts_takeIn]
  · rw [facts_onIdle, facts_takeIn]

theorem facts_onReturnHome (e : Engine) (w : Outlook) (active : Bool) (reason : ReturnReason) :
    (e.onReturnHome w active reason).facts = e.facts := by
  unfold onReturnHome
  repeat' split
  all_goals simp

theorem facts_onConnection (e : Engine) (connected : Bool) :
    (e.onConnection connected).facts = { e.facts with connected } := by
  unfold onConnection
  dsimp only
  split
  · split <;> simp
  · split <;> simp
  · rfl

theorem facts_onCamera (e : Engine) (w : Outlook) (camera : Camera) :
    (e.onCamera w camera).facts = { e.facts with camera } := by
  unfold onCamera
  dsimp only
  split <;> simp

theorem facts_onCleanedUp (e : Engine) (w : Outlook) (missionId : String)
    (result : CleanUpResult) : (e.onCleanedUp w missionId result).facts = e.facts := by
  unfold onCleanedUp
  split
  · rfl
  · split
    · dsimp only
      split
      · cases result <;> simp
      · rfl
    · rfl

theorem facts_notice (e : Engine) (w : Outlook) (n : Notice) :
    (e.notice w n).facts.linked = (e.facts.learn (.notice n)).linked := by
  cases n with
  | interface report => exact facts_onInterface e w report
  | returnHome active reason => exact congrArg Facts.linked (facts_onReturnHome e w active reason)
  | connection connected => exact congrArg Facts.linked (facts_onConnection e connected)
  | landed | position => rfl
  | camera camera => exact congrArg Facts.linked (facts_onCamera e w camera)
  | cleanedUp missionId result =>
    exact congrArg Facts.linked (facts_onCleanedUp e w missionId result)

theorem facts_tick {e' : Engine} (ht : e.tick = .ok e') : e'.facts = e.facts := by
  unfold tick at ht
  split at ht
  · cases ht
    rfl
  · next f _ =>
    split at ht
    · cases hd : f.elapsed.add e.settings.tick with
      | error fault =>
        rw [hd] at ht
        cases ht
      | ok elapsed =>
        rw [hd] at ht
        cases ht
        simp
    · cases ht
      rfl

theorem facts_timeout (e : Engine) (w : Outlook) (missionId : String) :
    (e.timeout w missionId).facts = e.facts := by
  unfold timeout
  split <;> simp

/-- **A step learns what its input tells and, but for the link, nothing else.** -/
theorem facts_step {e' : Engine} {i : Input} {log : List Effect}
    (hs : e.step w i = .ok (e', log)) : e'.facts.linked = (e.facts.learn i).linked := by
  obtain ⟨e₁, hh, rfl, -⟩ := handle_of_step hs
  show e₁.facts.linked = (e.facts.learn i).linked
  cases i with
  | wish x => cases hh; exact facts_heed _ w x
  | notice n => cases hh; exact facts_notice _ w n
  | tick => exact congrArg Facts.linked (facts_tick (e := { e with log := [] }) hh)
  | poll => cases hh; exact congrArg Facts.linked (facts_poll _ w)
  | timeout missionId => cases hh; exact congrArg Facts.linked (facts_timeout _ w missionId)

end Engine

/-- A fact is what was last told of it. -/
theorem foldr_learn {α : Type} {fact : Facts → α} {told? : Turn → Option α}
    (h : ∀ f t, fact (f.learn t.input) = (told? t).getD (fact f)) (ts : List Turn) :
    fact (ts.foldr (fun t f => f.learn t.input) {}) = (ts.findSome? told?).getD (fact {}) := by
  induction ts with
  | nil => rfl
  | cons t ts ih =>
    rw [List.foldr_cons, h, ih, List.findSome?_cons]
    cases told? t <;> rfl

/-- What a turn tells of the ground. -/
def Turn.landed? (t : Turn) : Option Bool :=
  match t.input with
  | .notice (.landed landed) => some landed
  | _ => none

theorem landed_learn (f : Facts) (t : Turn) :
    (f.learn t.input).landed = t.landed?.getD f.landed := by
  obtain ⟨w, i, log⟩ := t
  cases i with
  | wish x => cases x <;> rfl
  | notice n => cases n <;> rfl
  | tick | poll | timeout => rfl

namespace History

variable {settings : RunSettings} {ts : List Turn} {e : Engine}

/-- **But for the link, the facts of an engine are what its history has told.** -/
theorem facts_eq (h : History settings ts e) :
    e.facts.linked = (ts.foldr (fun t f => f.learn t.input) {} : Facts).linked := by
  induction h with
  | fresh => rfl
  | turn past now ih => rw [Engine.facts_step now, List.foldr_cons, Facts.linked_learn ih]

/-- The aircraft is on the ground unless it was last reported off it. -/
theorem landed_eq (h : History settings ts e) :
    e.facts.landed = (ts.findSome? Turn.landed?).getD true := by
  have hf := congrArg Facts.landed h.facts_eq
  exact hf.trans (foldr_learn landed_learn ts)

end History

end Sortie.Run
