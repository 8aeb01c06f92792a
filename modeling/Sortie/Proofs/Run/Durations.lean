import Sortie.Proofs.Run.Deferrals
import Sortie.Proofs.Run.Resumptions

/-!
# The time flown

The time of a run is nothing when the mission is loaded, what the pilot says when a run is taken
over, and a period longer after each tick that counts.  Nothing else changes it (`elapsed_step`), so
it can be read off the turns: the ticks that count are those after which it is shown anew
(`Turn.clock`, `History.elapsed_eq`).

A sum of spans is the only thing in a step that has a limit.  So a step fails exactly if it is a
tick that counts and the sum is past the limit (`History.fails_iff`), and it can be
(`not_forall_exists_step`): the pilot may take over a run with a time that is all but there.
-/

namespace Sortie

namespace Clock.Span

variable {a b c : Span}

theorem toNanos_zero : zero.toNanos = 0 := rfl

theorem toNanos_ofNanos (n : Nat) : (ofNanos n).toNanos = n :=
  Nat.div_add_mod' n nanosPerSecond

theorem toNanos_of_add (h : a.add b = .ok c) : c.toNanos = a.toNanos + b.toNanos := by
  unfold add at h
  dsimp only at h
  split at h
  · cases h
    exact toNanos_ofNanos _
  · cases h

/-- Spans cannot be added exactly if the seconds of the sum are too many. -/
theorem add_eq_error_iff {fault : Fault} : a.add b = .error fault ↔
    fault = .overflow ∧ limit * nanosPerSecond ≤ a.toNanos + b.toNanos := by
  have hseconds : limit ≤ (ofNanos (a.toNanos + b.toNanos)).seconds ↔
      limit * nanosPerSecond ≤ a.toNanos + b.toNanos :=
    Nat.le_div_iff_mul_le (by decide)
  rw [← hseconds]
  unfold add
  dsimp only
  split
  · next h => exact iff_of_false nofun fun hn => absurd hn.2 (Nat.not_le_of_lt h)
  · next h =>
    constructor
    · intro hfault
      cases hfault
      exact ⟨rfl, Nat.le_of_not_lt h⟩
    · rintro ⟨rfl, -⟩
      rfl

end Clock.Span

namespace Run

open Clock (Span)

/-- The time flown is shown anew. -/
def Effect.showsTime : Effect → Bool
  | .show .elapsed => true
  | .show _ | .order .. | .event _ => false

namespace Turn

/-- It is time to count the time flown. -/
def ticks (t : Turn) : Bool :=
  match t.input with
  | .tick => true
  | .wish _ | .notice _ | .poll | .timeout _ => false

/-- The time of a run that is taken over. -/
def adopted? (t : Turn) : Option Span :=
  match t.input with
  | .wish (.catchUp _ _ elapsed) => some elapsed
  | _ => none

/-- The nanoseconds flown after a turn, if a mission is loaded. -/
def clock (t : Turn) (period : Span) (nanos : Nat) : Nat :=
  match t.input with
  | .wish (.setup ..) => 0
  | .wish (.catchUp _ _ elapsed) => elapsed.toNanos
  | .tick => if t.effects.any Effect.showsTime then nanos + period.toNanos else nanos
  | _ => nanos

/-- A turn begins the time anew, takes it over, leaves it as it is, or counts. -/
theorem clock_cases (t : Turn) (period : Span) (nanos : Nat) :
    t.clock period nanos = 0 ∨
      (∃ d, t.adopted? = some d ∧ t.clock period nanos = d.toNanos) ∨
      t.clock period nanos = nanos ∨
      t.ticks = true ∧ t.clock period nanos = nanos + period.toNanos := by
  obtain ⟨w, i, log⟩ := t
  cases i with
  | wish x =>
    cases x with
    | setup => exact .inl rfl
    | catchUp item recovery elapsed => exact .inr (.inl ⟨elapsed, rfl, rfl⟩)
    | play | pause | unpause | stop | reset | update | setAvailability =>
      exact .inr (.inr (.inl rfl))
  | tick =>
    rw [clock]
    dsimp only
    split
    · exact .inr (.inr (.inr ⟨rfl, rfl⟩))
    · exact .inr (.inr (.inl rfl))
  | notice | poll | timeout => exact .inr (.inr (.inl rfl))

/-- Nothing else than loading a mission, taking a run over, and ticks matters. -/
theorem clock_of_not_adopts {t : Turn} (hi : t.input.adopts = false) (ht : t.input ≠ .tick)
    (period : Span) (nanos : Nat) : t.clock period nanos = nanos := by
  obtain ⟨w, i, log⟩ := t
  cases i with
  | wish x =>
    cases x with
    | setup | catchUp => cases hi
    | play | pause | unpause | stop | reset | update | setAvailability => rfl
  | tick => exact absurd rfl ht
  | notice | poll | timeout => rfl

end Turn

/-- The nanoseconds flown as the turns tell it. -/
def flown (period : Span) : List Turn → Nat
  | [] => 0
  | t :: ts => t.clock period (flown period ts)

/-- The times of runs that are taken over, and none at all. -/
def adopted (ts : List Turn) : List Span :=
  .zero :: ts.filterMap Turn.adopted?

/-- **The time flown is what was taken over, if anything, and a period for some of the ticks.** -/
theorem exists_flown (period : Span) (ts : List Turn) :
    ∃ d ∈ adopted ts, ∃ n ≤ ts.countP Turn.ticks,
      flown period ts = d.toNanos + n * period.toNanos := by
  induction ts with
  | nil =>
    refine ⟨.zero, List.mem_cons_self, 0, Nat.zero_le _, ?_⟩
    rw [Nat.zero_mul, Span.toNanos_zero, flown]
  | cons t ts ih =>
    obtain ⟨d, hd, n, hn, hflown⟩ := ih
    have hmem : d ∈ adopted (t :: ts) :=
      List.Sublist.subset ((List.sublist_cons_self t ts).filterMap _ |>.cons_cons _) hd
    have hcount : n ≤ (t :: ts).countP Turn.ticks :=
      hn.trans (List.sublist_cons_self t ts).countP_le
    rw [flown]
    rcases t.clock_cases period (flown period ts) with h | ⟨d', hd', h⟩ | h | ⟨ht, h⟩
    · refine ⟨.zero, List.mem_cons_self, 0, Nat.zero_le _, ?_⟩
      rw [h, Nat.zero_mul, Span.toNanos_zero]
    · refine ⟨d', ?_, 0, Nat.zero_le _, by rw [h, Nat.zero_mul, Nat.add_zero]⟩
      exact List.mem_cons_of_mem _ (List.mem_filterMap.mpr ⟨t, List.mem_cons_self, hd'⟩)
    · exact ⟨d, hmem, n, hcount, h.trans hflown⟩
    · refine ⟨d, hmem, n + 1, ?_, by rw [h, hflown, Nat.add_mul, Nat.one_mul, Nat.add_assoc]⟩
      rw [List.countP_cons_of_pos ht]
      exact Nat.succ_le_succ hn

namespace Engine

variable {e e' : Engine} {w : Outlook} {i : Input} {log : List Effect} {f : Flight}

/-! ### Operations that leave the flight as it is -/

@[simp] theorem flight_tell (e : Engine) (x : Effect) : (e.tell x).flight = e.flight := rfl

@[simp] theorem flight_setWatch (e : Engine) (v : Watch) : (e.setWatch v).flight = e.flight := rfl

@[simp] theorem flight_order (e : Engine) (w : Outlook) (o : Order) :
    (e.order w o).flight = e.flight := rfl

@[simp] theorem flight_setState (e : Engine) (s : State) : (e.setState s).flight = e.flight := by
  unfold setState
  split <;> rfl

@[simp] theorem flight_showReady (e : Engine) (b : Bool) : (e.showReady b).flight = e.flight := by
  unfold showReady
  split <;> rfl

@[simp] theorem flight_fail (e : Engine) (x : Failure) : (e.fail x).flight = e.flight := by
  unfold fail
  simp

@[simp] theorem flight_activate (e : Engine) (w : Outlook) (item : Nat) (restart : Bool) :
    (e.activate w item restart).flight = e.flight := by
  unfold activate
  split
  · rfl
  · dsimp only
    split <;> simp

@[simp] theorem flight_cleanUpFirst (e : Engine) (w : Outlook) (missionId resource : String)
    (item : Nat) : (e.cleanUpFirst w missionId resource item).flight = e.flight := by
  unfold cleanUpFirst
  dsimp only
  split <;> simp

@[simp] theorem flight_launchOrResume (e : Engine) (w : Outlook) (restart : Bool) :
    (e.launchOrResume w restart).flight = e.flight := by
  unfold launchOrResume launch resume
  dsimp only
  repeat' split
  all_goals simp

@[simp] theorem flight_whenSettled (e : Engine) (w : Outlook) (restart : Bool) :
    (e.whenSettled w restart).flight = e.flight := by
  unfold whenSettled
  split <;> simp

@[simp] theorem flight_poll (e : Engine) (w : Outlook) : (e.poll w).flight = e.flight := by
  unfold poll
  repeat' split
  all_goals simp

theorem flight_unload (e : Engine) : e.unload.flight = none := by
  rw [flight_eq_none_iff, registers_unload]
  rfl

/-! ### Operations that leave the time as it is -/

@[simp] theorem time_advance (e : Engine) :
    e.advance.flight.map Flight.elapsed = e.flight.map Flight.elapsed := by
  cases hf : e.flight with
  | none =>
    unfold advance
    rw [hf]
    exact congrArg _ hf
  | some f =>
    obtain ⟨p, d, h⟩ := flight_advance hf
    rw [h]
    rfl

@[simp] theorem time_reach (e : Engine) (item : Nat) :
    (e.reach item).flight.map Flight.elapsed = e.flight.map Flight.elapsed := by
  unfold reach
  split
  · rfl
  · next f hf =>
    split
    · dsimp only
      split
      · rw [flight_setState, flight_refreshWatch, hf]
        rfl
      · show some f.elapsed = _
        rw [hf]
        rfl
    · rfl

@[simp] theorem time_commit (e : Engine) :
    e.commit.flight.map Flight.elapsed = e.flight.map Flight.elapsed := by
  cases hf : e.flight with
  | none =>
    unfold commit
    rw [hf]
    exact congrArg _ hf
  | some f =>
    rw [flight_commit hf]
    rfl

@[simp] theorem time_start (e : Engine) :
    e.start.flight.map Flight.elapsed = e.flight.map Flight.elapsed := by
  unfold start
  split
  · rfl
  · simp

@[simp] theorem time_hold (e : Engine) :
    e.hold.flight.map Flight.elapsed = e.flight.map Flight.elapsed := by
  have hc := time_commit { e with counting := false, intent := .paused }
  unfold hold
  dsimp only
  split
  · exact hc
  · rwa [flight_setState, flight_setWatch]

@[simp] theorem time_finish (e : Engine) :
    e.finish.flight.map Flight.elapsed = e.flight.map Flight.elapsed := by
  have hc := time_commit { e with counting := false, settling := none, cleanUp := none }
  unfold finish
  dsimp only
  split
  · exact hc
  · rw [flight_setState, flight_setWatch]
    split <;> exact hc

@[simp] theorem time_takeIn (e : Engine) (report : Option Report) :
    (e.takeIn report).flight.map Flight.elapsed = e.flight.map Flight.elapsed := by
  unfold takeIn
  cases report with
  | none => simp
  | some r =>
    have hrecovery : (e.flight.map (Flight.withRecovery · r.recovery)).map Flight.elapsed
        = e.flight.map Flight.elapsed := by
      cases e.flight <;> rfl
    dsimp only
    split
    · rw [time_reach]
      simpa using hrecovery
    · simpa using hrecovery

@[simp] theorem time_onIdle (e : Engine) (isPaused : Bool) :
    (e.onIdle isPaused).flight.map Flight.elapsed = e.flight.map Flight.elapsed := by
  unfold onIdle
  dsimp only
  repeat' split
  all_goals simp [flight_showNavigating]

@[simp] theorem time_update (e : Engine) (x : Execution) :
    (e.update x).flight.map Flight.elapsed = e.flight.map Flight.elapsed := by
  unfold update
  split
  · rfl
  · next f hf =>
    split
    · dsimp only
      split
      · rw [flight_setState, flight_refreshWatch, hf]
        rfl
      · rw [flight_refreshWatch, hf]
        rfl
    · rfl

/-! ### Inputs -/

/-- The time flown is as before, or there is no run any more. -/
def KeepsTime (e e' : Engine) : Prop :=
  e'.flight = none ∨ e'.flight.map Flight.elapsed = e.flight.map Flight.elapsed

theorem keepsTime_heed (e : Engine) (w : Outlook) {x : Wish}
    (h : (Input.wish x).adopts = false) : e.KeepsTime (e.heed w x) := by
  cases x with
  | setup | catchUp => cases h
  | reset => exact .inl e.flight_unload
  | update x => exact .inr (e.time_update x)
  | play | pause | unpause | stop | setAvailability =>
    refine .inr ?_
    dsimp only [heed]
    simp only [play, pause, unpause, stop, setAvailability]
    repeat' split
    all_goals simp

theorem keepsTime_onActive (e : Engine) (w : Outlook) : e.KeepsTime (e.onActive w) := by
  unfold onActive
  cases e.state with
  | failed | paused | idle => cases e.intent <;> exact .inr (by simp)
  | noMission | ended =>
    dsimp only
    split
    · exact .inl (flight_unload _)
    · exact .inr rfl
  | playing | returning => exact .inr rfl

theorem keepsTime_notice (e : Engine) (w : Outlook) (n : Notice) :
    e.KeepsTime (e.notice w n) := by
  cases n with
  | interface report =>
    show e.KeepsTime (e.onInterface w report)
    rw [onInterface_eq]
    split
    · have h := keepsTime_onActive (e.takeIn report) w
      rwa [KeepsTime, time_takeIn] at h
    · exact .inr (by simp)
  | landed | position => exact .inr rfl
  | returnHome | connection | camera | cleanedUp =>
    refine .inr ?_
    dsimp only [notice]
    simp only [onReturnHome, onConnection, onCamera, onCleanedUp]
    repeat' split
    all_goals simp

/-- **Only loading a mission, taking a run over and ticks change the time flown.** -/
theorem keepsTime_step {t : Turn} (hi : t.input.adopts = false) (ht : t.input ≠ .tick)
    (hs : e.step t.outlook t.input = .ok (e', t.effects)) : e.KeepsTime e' := by
  obtain ⟨w, i, log⟩ := t
  obtain ⟨d, hd, rfl, -⟩ := handle_of_step hs
  cases i with
  | wish x => cases hd; exact keepsTime_heed { e with log := [] } w hi
  | notice n => cases hd; exact keepsTime_notice { e with log := [] } w n
  | tick => exact absurd rfl ht
  | poll => cases hd; exact .inr (congrArg _ (flight_poll { e with log := [] } w))
  | timeout missionId =>
    cases hd
    refine .inr (congrArg _ ?_)
    show (({ e with log := [] } : Engine).timeout w missionId).flight = e.flight
    unfold timeout
    split <;> simp

theorem time_catchUp (hf : e.flight = some f) (item : Nat) (recovery : Option String)
    (elapsed : Span) :
    (e.catchUp item recovery elapsed).flight.map Flight.elapsed = some elapsed := by
  unfold catchUp
  rw [hf]
  dsimp only
  rw [time_start, time_commit, flight_showElapsed]
  rfl

/-! ### Ticks -/

theorem shows_tell (e : Engine) {x : Effect} (h : x.showsTime = false) :
    (e.tell x).log.any Effect.showsTime = e.log.any Effect.showsTime := by
  show (e.log ++ [x]).any Effect.showsTime = _
  simp [h]

theorem shows_show (e : Engine) (c : Prop) [Decidable c] (b : Board) {x : Effect}
    (h : x.showsTime = false) :
    (if c then e else ({ e with board := b } : Engine).tell x).log.any Effect.showsTime
      = e.log.any Effect.showsTime := by
  split
  · rfl
  · exact shows_tell _ h

theorem shows_advance (hf : e.flight = some f) :
    e.advance.log.any Effect.showsTime = e.log.any Effect.showsTime := by
  have hnavigating (b : Bool) :
      (e.showNavigating b).log.any Effect.showsTime = e.log.any Effect.showsTime :=
    e.shows_show _ _ rfl
  rcases advance_cases hf with ⟨b, heq⟩ | ⟨p, d, -, heq⟩
  · rw [heq, hnavigating]
  · rw [heq]
    refine (shows_tell _ rfl).trans ?_
    refine (shows_show _ _ _ rfl).trans ?_
    refine (shows_show _ _ _ rfl).trans ?_
    exact hnavigating false

/-- The time is shown anew if it differs from what the board shows. -/
theorem shows_showElapsed (e : Engine) (hlog : e.log = []) (d : Span) :
    (e.showElapsed d).log.any Effect.showsTime = decide (e.board.elapsed ≠ d) := by
  unfold showElapsed
  split
  · next h => simp [h, hlog]
  · next h =>
    show (e.log ++ [Effect.show .elapsed]).any Effect.showsTime = _
    simp [h, hlog, Effect.showsTime]

/-- A tick that counts adds a period, and it fails if that cannot be added. -/
theorem tick_of_counting (hf : e.flight = some f) (hc : e.counting = true) :
    e.tick = (f.elapsed.add e.settings.tick).map fun d =>
      (({ e with flight := some { f with elapsed := d } } : Engine).showElapsed d).advance := by
  unfold tick
  rw [hf]
  dsimp only
  rw [if_pos hc]
  cases f.elapsed.add e.settings.tick <;> rfl

theorem tick_of_not_counting (hc : e.counting = false) : e.tick = .ok e := by
  unfold tick
  split
  · rfl
  · rw [if_neg (by simp [hc])]
    rfl

theorem tick_of_unloaded (hf : e.flight = none) : e.tick = .ok e := by
  unfold tick
  rw [hf]

/-- A step fails exactly if it is a tick that counts and the period cannot be added. -/
theorem step_eq_error_iff {fault : Span.Fault} : e.step w i = .error fault ↔
    i = .tick ∧ e.counting = true ∧
      ∃ f, e.flight = some f ∧ f.elapsed.add e.settings.tick = .error fault := by
  let d : Engine := { e with log := [] }
  have hstep : e.step w i = .error fault ↔ d.handle w i = .error fault := by
    unfold step
    cases d.handle w i with
    | ok => exact iff_of_false nofun nofun
    | error fault' =>
      have hinj {α : Type} : (Except.error fault' : Except _ α) = .error fault ↔ fault' = fault :=
        ⟨Except.error.inj, congrArg _⟩
      exact hinj.trans hinj.symm
  rw [hstep]
  constructor
  · intro h
    cases i with
    | wish | notice | poll | timeout => cases h
    | tick =>
      have h : d.tick = .error fault := h
      cases hf : e.flight with
      | none =>
        rw [tick_of_unloaded (e := d) hf] at h
        cases h
      | some f =>
        cases hc : e.counting with
        | false =>
          rw [tick_of_not_counting (e := d) hc] at h
          cases h
        | true =>
          rw [tick_of_counting (e := d) hf hc] at h
          cases hadd : f.elapsed.add d.settings.tick with
          | ok =>
            rw [hadd] at h
            cases h
          | error =>
            rw [hadd] at h
            cases h
            exact ⟨rfl, rfl, f, rfl, hadd⟩
  · rintro ⟨rfl, hc, f, hf, hadd⟩
    show d.tick = .error fault
    rw [tick_of_counting (e := d) hf hc]
    exact congrArg _ hadd

/-- A tick that shows the time anew has counted. -/
theorem Reachable.time_tick (h : e.Reachable) (hf : e.flight = some f)
    (hs : e.step w .tick = .ok (e', log)) : ∃ d, e'.flight.map Flight.elapsed = some d ∧
      d.toNanos = if log.any Effect.showsTime then f.elapsed.toNanos + e.settings.tick.toNanos
        else f.elapsed.toNanos := by
  obtain ⟨e₁, ht, rfl, rfl⟩ := handle_of_step hs
  have ht : ({ e with log := [] } : Engine).tick = .ok e₁ := ht
  cases hc : e.counting with
  | false =>
    rw [tick_of_not_counting (e := { e with log := [] }) hc] at ht
    cases ht
    exact ⟨f.elapsed, congrArg _ hf, rfl⟩
  | true =>
    rw [tick_of_counting (e := { e with log := [] }) hf hc] at ht
    cases hd : f.elapsed.add e.settings.tick with
    | error fault =>
      rw [hd] at ht
      cases ht
    | ok d =>
      rw [hd] at ht
      cases ht
      let e₂ : Engine := { e with log := [], flight := some { f with elapsed := d } }
      have hflight : (e₂.showElapsed d).flight = some { f with elapsed := d } :=
        flight_showElapsed e₂ d
      have hshown : e.board.elapsed = f.elapsed := by
        obtain ⟨e₀, hagrees⟩ := h.agrees
        rw [hagrees.tracks.elapsed, Engine.elapsed, hf]
        rfl
      refine ⟨d, ?_, ?_⟩
      · show (e₂.showElapsed d).advance.flight.map _ = _
        rw [time_advance, hflight]
        rfl
      · show d.toNanos = if (e₂.showElapsed d).advance.log.any Effect.showsTime then _ else _
        rw [shows_advance hflight, shows_showElapsed e₂ rfl]
        by_cases hsame : f.elapsed = d
        · have hshows : decide (e₂.board.elapsed ≠ d) = false := by
            simpa [e₂, hshown] using hsame
          rw [hshows, if_neg Bool.false_ne_true, hsame]
        · have hshows : decide (e₂.board.elapsed ≠ d) = true := by
            simpa [e₂, hshown] using hsame
          rw [hshows, if_pos rfl, Span.toNanos_of_add hd]

/-- **What a turn makes of the time flown.** -/
theorem Reachable.time_step {t : Turn} (h : e.Reachable)
    (hs : e.step t.outlook t.input = .ok (e', t.effects)) {nanos : Nat}
    (hn : ∀ f, e.flight = some f → f.elapsed.toNanos = nanos) {f' : Flight}
    (hf' : e'.flight = some f') : f'.elapsed.toNanos = t.clock e.settings.tick nanos := by
  have hkeep (hi : t.input.adopts = false) (ht : t.input ≠ .tick) :
      f'.elapsed.toNanos = t.clock e.settings.tick nanos := by
    rw [Turn.clock_of_not_adopts hi ht]
    rcases keepsTime_step hi ht hs with hnone | hsame
    · cases hnone.symm.trans hf'
    · rw [hf'] at hsame
      obtain ⟨f, hf, hd⟩ := Option.map_eq_some_iff.mp hsame.symm
      rw [← hd]
      exact hn f hf
  obtain ⟨w, i, log⟩ := t
  cases i with
  | wish x =>
    cases x with
    | setup x s =>
      obtain rfl : .load x s = f' := Option.some.inj ((flight_of_setup hs).symm.trans hf')
      exact Span.toNanos_zero
    | catchUp item recovery elapsed =>
      obtain ⟨d, hd, rfl, -⟩ := handle_of_step hs
      cases hd
      have hf' : (({ e with log := [] } : Engine).catchUp item recovery elapsed).flight = some f' :=
        hf'
      cases hf : e.flight with
      | none =>
        rw [catchUp_of_unloaded (e := { e with log := [] }) hf] at hf'
        cases hf.symm.trans hf'
      | some f =>
        have htime := time_catchUp (e := { e with log := [] }) hf item recovery elapsed
        rw [hf'] at htime
        exact congrArg Span.toNanos (Option.some.inj htime)
    | play | pause | unpause | stop | reset | update | setAvailability => exact hkeep rfl nofun
  | tick =>
    cases hf : e.flight with
    | none =>
      obtain ⟨d, ht, rfl, -⟩ := handle_of_step hs
      have ht : ({ e with log := [] } : Engine).tick = .ok d := ht
      rw [tick_of_unloaded (e := { e with log := [] }) hf] at ht
      cases ht
      cases hf.symm.trans hf'
    | some f =>
      obtain ⟨d, hd, hnanos⟩ := h.time_tick hf hs
      rw [hf'] at hd
      obtain rfl : f'.elapsed = d := Option.some.inj hd
      rwa [hn f hf] at hnanos
  | notice | poll | timeout => exact hkeep rfl nofun

end Engine

open Engine

/-- **The time flown is what the turns tell.** -/
theorem History.elapsed_eq {settings : RunSettings} {ts : List Turn} {e : Engine}
    (h : History settings ts e) {f : Flight} (hf : e.flight = some f) :
    f.elapsed.toNanos = flown settings.tick ts := by
  induction h generalizing f with
  | fresh => cases hf
  | @turn ts e e' t past now ih =>
    rw [flown, ← past.settings_eq]
    refine past.reachable.time_step now (fun f hf => ?_) hf
    rw [ih hf, past.settings_eq]

/-! ### Looks at the camera -/

namespace Registers

variable {w : Outlook} {f : Facts} {r r' : Registers} {i : Input} {s : Settling}

/-- Looks at the camera apart, what is put off has been so before, or it is put off anew. -/
theorem Move.settling_cases (hm : Move w f r i r') (hi : i ≠ .poll) (hs : r'.settling = some s) :
    r.settling = some s ∨ s.attempts = 0 := by
  cases hm with
  | stay | empty | unready | rest | hold | goHome | drop => exact .inl hs
  | attempt _ _ _ ho | cleaned _ _ ho => exact .inl (ho.settling_eq hs)
  | settled _ _ _ ho => cases ho.settling_eq hs
  | defer =>
    cases hs
    exact .inr rfl
  | unsettled | exhausted => exact absurd rfl hi
  | load | unload | pause | quiet | stop | catchUp | lose | finish | start | abandon | canceled
  | timeout => cases hs

end Registers

/-- **The looks at a busy camera are counted below their limit**, so that one more can be. -/
theorem Engine.Reachable.attempts_lt {e : Engine} (h : e.Reachable) :
    ∀ s, e.settling = some s → s.attempts < max 1 e.settings.pollLimit := by
  refine Reachable.induction (P := fun e => ∀ s, e.settling = some s →
    s.attempts < max 1 e.settings.pollLimit) (fun settings s hs => by cases hs) ?_ h
  intro e e' w i log hr ih hstep s hs
  have hsettings : e'.settings = e.settings := by
    obtain ⟨e₀, hagrees⟩ := hr.agrees
    exact settings_step hagrees hr.coherent hstep
  rw [hsettings]
  by_cases hi : i = .poll
  · subst hi
    obtain ⟨e₁, hh, rfl, -⟩ := handle_of_step hstep
    cases hh
    obtain ⟨s₀, -, -, hlimit⟩ :=
      settling_poll (e := { e with log := [] }) hr.busy_of_settling hs
    exact hlimit.trans_le (Nat.le_max_right 1 _)
  · rcases (move_step hr.coherent.backed hstep).settling_cases hi hs with hsame | hzero
    · exact ih s hsame
    · rw [hzero]
      exact Nat.lt_of_lt_of_le Nat.zero_lt_one (Nat.le_max_left 1 _)

/-! ### Failures -/

/-- **A step fails exactly if it is a tick that counts and the time flown gets too long.**  The time
flown is what was taken over last, if anything, and a period for each tick that has counted since.
The looks at a busy camera are counted as well, and never beyond their limit. -/
theorem History.fails_iff {settings : RunSettings} {ts : List Turn} {e : Engine}
    (h : History settings ts e) (w : Outlook) (i : Input) :
    (∀ fault, e.step w i = .error fault ↔ fault = .overflow ∧ i = .tick ∧ e.counting = true ∧
      Span.limit * Span.nanosPerSecond ≤ flown settings.tick ts + settings.tick.toNanos) ∧
    (∃ d ∈ adopted ts, ∃ n ≤ ts.countP Turn.ticks,
      flown settings.tick ts = d.toNanos + n * settings.tick.toNanos) ∧
    ∀ s, e.settling = some s → s.attempts < max 1 settings.pollLimit := by
  refine ⟨fun fault => ?_, exists_flown settings.tick ts, ?_⟩
  · rw [step_eq_error_iff, h.settings_eq]
    constructor
    · rintro ⟨hi, hc, f, hf, hadd⟩
      obtain ⟨hfault, hlong⟩ := Span.add_eq_error_iff.mp hadd
      rw [h.elapsed_eq hf] at hlong
      exact ⟨hfault, hi, hc, hlong⟩
    · rintro ⟨hfault, hi, hc, hlong⟩
      have hcoherent := h.reachable.coherent
      have hflying := hcoherent.flying_of_active (hcoherent.active_of_counting hc)
      obtain ⟨f, hf⟩ := exists_flight (hcoherent.loaded_iff.mpr hflying.hasMission)
      refine ⟨hi, hc, f, hf, Span.add_eq_error_iff.mpr ⟨hfault, ?_⟩⟩
      rwa [h.elapsed_eq hf]
  · rw [← h.settings_eq]
    exact h.reachable.attempts_lt

/-- The aircraft flies the sample already, for almost as long as a span can be. -/
def brimful : List Input :=
  preparation ++ [.wish (.catchUp 0 none ⟨Span.limit - 1, 0⟩)]

theorem fails_brimful :
    History {} (trial {} (smoothly brimful)).1 (trial {} (smoothly brimful)).2 ∧
    (trial {} (smoothly brimful)).2.step {} .tick = .error .overflow := by
  have h := history_trial {} (smoothly brimful)
  exact ⟨h, ((h.fails_iff {} .tick).1 _).mpr ⟨rfl, rfl, by decide, by decide⟩⟩

/-- A run that is taken over with a time that is all but too long fails, even if the time is one
that there is. -/
theorem not_forall_exists_step :
    ¬ ∀ settings ts (e : Engine), History settings ts e →
      (∀ d ∈ adopted ts, d.seconds < Span.limit ∧ d.nanos < Span.nanosPerSecond) →
      ∀ w i, ∃ e' log, e.step w i = .ok (e', log) := by
  intro hall
  obtain ⟨e', log, hs⟩ :=
    hall {} _ _ (history_trial {} (smoothly brimful)) (by decide) {} .tick
  have hfails : (trial {} (smoothly brimful)).2.step {} .tick = .error .overflow := by rfl
  cases hfails.symm.trans hs

end Run

end Sortie
