import Sortie.Proofs.Run.Agreement
import Sortie.Proofs.Run.Items

/-!
# Runs that wait

A run that the aircraft does not fly waits on the ground: whatever is told or asked then, its state
stays as it is, it fails, or it is set up again (`State.Waits`), and the account of its flight is
kept.  Only a stop ends it, and nothing holds the stop up (`Engine.grounded_step`).
-/

namespace Sortie.Run

/-! ### Inputs that leave a run on the ground -/

/-- The pilot stops the run. -/
def Input.stops : Input → Bool
  | .wish (.stop _) => true
  | _ => false

/-- The run is neither set up anew, forgotten, taken over nor changed, and the aircraft does not
report that it flies it. -/
def Input.grounds : Input → Bool
  | .wish (.setup ..) | .wish .reset | .wish (.catchUp ..) | .wish (.update _) => false
  | i => !i.reportsActive

theorem Input.eq_of_stops {i : Input} (h : i.stops = true) : ∃ forced, i = .wish (.stop forced) := by
  unfold Input.stops at h
  split at h
  · exact ⟨_, rfl⟩
  · cases h

theorem Input.adopts_of_grounds {i : Input} (h : i.grounds = true) : i.adopts = false := by
  unfold Input.adopts
  split
  · cases h
  · cases h
  · rfl

theorem Input.update?_of_grounds {i : Input} (h : i.grounds = true) : i.update? = none := by
  cases hu : i.update? with
  | none => rfl
  | some x =>
    rw [Input.eq_of_update? hu] at h
    cases h

namespace State

/-- After `s` the run is as it was, or it is set up or has failed. -/
def Waits (s t : State) : Prop :=
  t = s ∨ (∃ f, t = failed f) ∨ ∃ x a, t = idle x a

theorem Waits.refl (s : State) : s.Waits s := .inl rfl

end State

namespace Engine

variable {e e' : Engine} {w : Outlook} {f : Flight}

theorem waits_setState_failed (e : Engine) (f : Failure) :
    e.state.Waits (e.setState (.failed f)).state := by
  unfold setState
  split
  · exact .refl _
  · exact .inr (.inl ⟨f, rfl⟩)

theorem waits_fail (e : Engine) (f : Failure) : e.state.Waits (e.fail f).state := by
  unfold fail
  exact waits_setState_failed _ f

theorem waits_activate (e : Engine) (w : Outlook) (item : Nat) (restart : Bool) :
    e.state.Waits (e.activate w item restart).state := by
  unfold activate
  split
  · exact .refl _
  · dsimp only
    split
    · exact waits_fail _ _
    · exact .refl _

theorem waits_cleanUpFirst (e : Engine) (w : Outlook) (missionId resource : String) (item : Nat) :
    e.state.Waits (e.cleanUpFirst w missionId resource item).state := by
  unfold cleanUpFirst
  dsimp only
  split
  · exact waits_fail _ _
  · exact .refl _

theorem waits_launch (e : Engine) (w : Outlook) : e.state.Waits (e.launch w).state := by
  unfold launch
  split
  · exact .refl _
  · split
    · exact waits_setState_failed _ _
    · dsimp only
      split
      · exact waits_activate _ w 0 true
      · split
        · exact waits_cleanUpFirst _ w _ _ _
        · exact waits_activate _ w _ true

theorem waits_launchOrResume (e : Engine) (w : Outlook) (restart : Bool) :
    e.state.Waits (e.launchOrResume w restart).state := by
  unfold launchOrResume
  split
  · exact waits_launch e w
  · unfold resume
    split
    · exact .refl _
    · exact waits_activate _ w _ false

theorem waits_whenSettled (e : Engine) (w : Outlook) (restart : Bool) :
    e.state.Waits (e.whenSettled w restart).state := by
  unfold whenSettled
  split
  · exact waits_launchOrResume e w restart
  · exact .refl _

theorem waits_poll (e : Engine) (w : Outlook) : e.state.Waits (e.poll w).state := by
  unfold poll
  split
  · exact .refl _
  · split
    · exact waits_launchOrResume _ w _
    · split
      · exact waits_fail _ _
      · exact .refl _

theorem waits_play (e : Engine) (w : Outlook) : e.state.Waits (e.play w).state := by
  unfold play
  split
  · exact waits_setState_failed _ _
  · split
    · exact .refl _
    · exact .refl _
    · split
      · exact waits_whenSettled _ w true
      · exact waits_setState_failed _ _

theorem waits_pause (e : Engine) (w : Outlook) : e.state.Waits (e.pause w).state := by
  unfold pause
  split <;> exact .refl _

theorem waits_unpause (e : Engine) (w : Outlook) : e.state.Waits (e.unpause w).state := by
  unfold unpause
  split
  · split
    · split
      · exact .refl _
      · exact waits_whenSettled _ w false
    · exact waits_setState_failed _ _
  · exact .refl _

theorem waits_onCamera (e : Engine) (w : Outlook) (camera : Camera) :
    e.state.Waits (e.onCamera w camera).state := by
  unfold onCamera
  dsimp only
  split
  · exact waits_poll _ w
  · exact .refl _

theorem waits_onCleanedUp (e : Engine) (w : Outlook) (missionId : String)
    (result : CleanUpResult) : e.state.Waits (e.onCleanedUp w missionId result).state := by
  unfold onCleanedUp
  split
  · exact .refl _
  · split
    · dsimp only
      split
      · split
        · exact waits_activate _ w _ true
        · exact waits_fail _ _
      · exact .refl _
    · exact .refl _

theorem waits_timeout (e : Engine) (w : Outlook) (missionId : String) :
    e.state.Waits (e.timeout w missionId).state := by
  unfold timeout
  split
  · exact waits_setState_failed _ _
  · exact .refl _

theorem waits_tick (h : e.tick = .ok e') : e.state.Waits e'.state := by
  unfold tick at h
  split at h
  · cases h
    exact .refl _
  · next f hf =>
    split at h
    · cases hd : f.elapsed.add e.settings.tick with
      | error fault =>
        rw [hd] at h
        cases h
      | ok elapsed =>
        rw [hd] at h
        cases h
        refine .inl ?_
        rw [state_advance (flight_showElapsed _ elapsed), state_showElapsed]
    · cases h
      exact .refl _

section

variable (hp : ¬ e.state.phase.IsRunning)

include hp

theorem waits_setAvailability (a : Availability) :
    e.Keeps (e.setAvailability a) ∧ e.state.Waits (e.setAvailability a).state := by
  have hlearnt : e.Keeps { e with facts := { e.facts with availability := a } } :=
    ⟨rfl, fun _ => rfl⟩
  unfold setAvailability
  dsimp only
  split
  · next x b hs =>
    refine ⟨hlearnt.trans (keeps_setState (by simp [State.phase, Phase.IsHalted])), ?_⟩
    unfold setState
    split
    · exact .refl _
    · exact .inr (.inr ⟨x, a, rfl⟩)
  · next c x b hs => exact absurd (.inr (congrArg State.phase hs)) hp
  · exact ⟨hlearnt, .refl _⟩

theorem waits_onReturnHome (w : Outlook) (active : Bool) (reason : ReturnReason) :
    e.state.Waits (e.onReturnHome w active reason).state := by
  unfold onReturnHome
  split
  · split
    · next hs => exact absurd (.inl (.inl (congrArg State.phase hs))) hp
    · next hs => exact absurd (.inr (congrArg State.phase hs)) hp
    · exact .refl _
    · exact .refl _
    · exact .refl _
    all_goals
      split <;> exact .refl _
  · exact .refl _

theorem waits_onConnection (connected : Bool) : e.state.Waits (e.onConnection connected).state := by
  unfold onConnection
  dsimp only
  split
  · next hs => exact absurd (.inl (.inl (congrArg State.phase hs))) hp
  · next hs => exact absurd (.inr (congrArg State.phase hs)) hp
  · exact .refl _

theorem waits_onIdle (isPaused : Bool) :
    e.Keeps (e.onIdle isPaused) ∧ e.state.Waits (e.onIdle isPaused).state := by
  have hrest : e.Keeps (({ e with counting := false } : Engine).showNavigating false) :=
    Keeps.trans (d := { e with counting := false }) ⟨rfl, fun _ => rfl⟩ (keeps_showNavigating _ _)
  have hstate : (({ e with counting := false } : Engine).showNavigating false).state = e.state :=
    state_showNavigating _ _
  unfold onIdle
  dsimp only
  split
  · next hs => exact absurd (.inl (.inl (congrArg State.phase (hstate.symm.trans hs)))) hp
  · next hs => exact absurd (.inl (.inr (congrArg State.phase (hstate.symm.trans hs)))) hp
  · next hs => exact absurd (.inr (congrArg State.phase (hstate.symm.trans hs))) hp
  · exact ⟨hrest, .inl hstate⟩

/-- **On the ground nothing but a stop ends a run or changes its record.** -/
theorem waits_handle {i : Input} (hi : i.grounds = true) (hs : i.stops = false)
    (hd : e.handle w i = .ok e') : (e.brought i).Keeps e' ∧ e.state.Waits e'.state := by
  cases i with
  | tick => exact ⟨keeps_tick hd, waits_tick hd⟩
  | poll => cases hd; exact ⟨e.keeps_poll w, waits_poll e w⟩
  | timeout missionId => cases hd; exact ⟨e.keeps_timeout w missionId, waits_timeout e w missionId⟩
  | wish x =>
    cases hd
    cases x with
    | setup | reset | catchUp | update => cases hi
    | stop => cases hs
    | play => exact ⟨e.keeps_play w, waits_play e w⟩
    | pause => exact ⟨e.keeps_pause w, waits_pause e w⟩
    | unpause => exact ⟨e.keeps_unpause w, waits_unpause e w⟩
    | setAvailability a => exact waits_setAvailability hp a
  | notice n =>
    cases hd
    cases n with
    | interface report =>
      have hidle : report.any (·.state = .active) = false := by
        simpa [Input.grounds, Input.reportsActive] using hi
      have htaken : (e.takeIn report).state = e.state :=
        state_takeIn (fun hn => hp (.inl (.inl hn))) report
      show (e.takeIn report).Keeps (e.onInterface w report) ∧
        e.state.Waits (e.onInterface w report).state
      rw [onInterface_eq, hidle, if_neg Bool.false_ne_true]
      have hrest := waits_onIdle (e := e.takeIn report) (htaken ▸ hp) (report.any (·.isPaused))
      exact ⟨hrest.1, htaken ▸ hrest.2⟩
    | returnHome active reason =>
      exact ⟨e.keeps_onReturnHome w active reason, waits_onReturnHome hp w active reason⟩
    | connection connected => exact ⟨e.keeps_onConnection connected, waits_onConnection hp connected⟩
    | landed | position => exact ⟨⟨rfl, fun _ => rfl⟩, .refl _⟩
    | camera camera => exact ⟨e.keeps_onCamera w camera, waits_onCamera e w camera⟩
    | cleanedUp missionId result =>
      exact ⟨e.keeps_onCleanedUp w missionId result, waits_onCleanedUp e w missionId result⟩

end

/-! ### A stop on the ground -/

theorem ended_setState (e : Engine) (x : Execution) :
    ∃ y, Same y x ∧
      (e.setState (.ended x.cursor.reachedLast x)).state = .ended y.cursor.reachedLast y := by
  unfold setState
  split
  · next h =>
    cases hs : e.state with
    | ended completed y =>
      rw [hs] at h
      have h : (completed == x.cursor.reachedLast && y == x) = true := h
      rw [Bool.and_eq_true, beq_iff_eq] at h
      obtain ⟨hcompleted, hy⟩ := h
      have hlast := (Execution.cursor_of_same (.inr hy)).2.2
      exact ⟨y, .inr hy, by rw [hcompleted, hlast]⟩
    | noMission | idle | failed | playing | returning | paused =>
      rw [hs] at h
      cases h
  · exact ⟨x, .refl x, rfl⟩

theorem ended_finish (hf : e.flight = some f) :
    ∃ y, Same y f.committed ∧ e.finish.state = .ended y.cursor.reachedLast y := by
  let d : Engine := { e with counting := false, settling := none, cleanUp := none }
  have hf : d.flight = some f := hf
  have hc : d.commit.flight = some f.commit := flight_commit hf
  simp only [finish, d] at hc ⊢
  simp only [hc]
  exact ended_setState _ _

/-- Nothing is waited for on the ground. -/
theorem stop_grounded (hf : e.flight = some f) (hp : ¬ e.state.phase.IsRunning) (w : Outlook)
    (forced : Bool) :
    e.Halts (e.stop w forced) ∧
      ∃ y, Same y f.committed ∧ (e.stop w forced).state = .ended y.cursor.reachedLast y := by
  have hlinked : e.isLinked = false := by
    unfold isLinked
    split
    · next hs => exact absurd (.inl (.inl (congrArg State.phase hs))) hp
    · next hs => exact absurd (.inr (congrArg State.phase hs)) hp
    · rfl
  let c : Engine :=
    { e with counting := false, settling := none, cleanUp := none, intent := .stopped }
  let d : Engine := c.order w .stop
  have hc : e.Keeps c := ⟨rfl, fun _ => rfl⟩
  have hd : e.Keeps d := hc.trans (keeps_order c w .stop)
  have hstop : e.stop w forced = d.finish := by
    unfold stop
    dsimp only
    split
    · next hn => cases hn.symm.trans hf
    · next g hg =>
      have hwaits : ¬ (!forced && g.isHomeAhead && e.isLinked) = true := by simp [hlinked]
      exact if_neg hwaits
  have hf : d.flight = some f := hf
  rw [hstop]
  exact ⟨⟨hd.account ▸ (halts_finish hf).account, (halts_finish hf).phase⟩, ended_finish hf⟩

/-- **What a turn makes of a run on the ground.**  The run waits, or it is stopped. -/
theorem grounded_step {t : Turn} (hf : e.flight = some f) (hp : ¬ e.state.phase.IsRunning)
    (hi : t.input.grounds = true) (hs : e.step t.outlook t.input = .ok (e', t.effects)) :
    ∃ g, e'.flight = some g ∧
      (t.input.stops = false ∧ g.core = f.core.bring false t.input ∧ e.state.Waits e'.state ∨
        t.input.stops = true ∧ g.core = f.core.commit ∧
          ∃ y, Same y f.committed ∧ e'.state = .ended y.cursor.reachedLast y) := by
  obtain ⟨d, hd, rfl, -⟩ := handle_of_step hs
  let e₁ : Engine := { e with log := [] }
  have hloaded : e₁.account = ⟨some f.core, []⟩ := account_of_loaded (e := e₁) hf
  cases hstops : t.input.stops with
  | false =>
    have hplaying : decide (e.state.phase = .playing) = false :=
      decide_eq_false fun h => hp (.inl (.inl h))
    obtain ⟨hkeeps, hwaits⟩ := waits_handle (e := e₁) hp hi hstops hd
    have haccount := hkeeps.account.trans ((account_brought e₁ t.input).trans
      (congrArg (Account.bring · _ t.input) hloaded))
    obtain ⟨g, hg, hcore⟩ := Option.map_eq_some_iff.mp (congrArg Account.flight haccount)
    exact ⟨g, hg, .inl ⟨rfl, hplaying ▸ hcore, hwaits⟩⟩
  | true =>
    obtain ⟨forced, hstop⟩ := Input.eq_of_stops hstops
    rw [hstop] at hd
    cases hd
    obtain ⟨hhalts, hended⟩ := stop_grounded (e := e₁) hf hp t.outlook forced
    obtain ⟨h, hh, haccount, -⟩ := hhalts.account
    obtain rfl : f.core = h := by
      rw [hloaded] at hh
      exact Option.some.inj hh
    obtain ⟨g, hg, hcore⟩ := Option.map_eq_some_iff.mp (congrArg Account.flight haccount)
    exact ⟨g, hg, .inr ⟨rfl, hcore, hended⟩⟩

end Engine

end Sortie.Run
