import Sortie.Proofs.Command.Indices
import Sortie.Proofs.Run.Contradictions
import Sortie.Proofs.Run.Stopping

/-!
# Stops that are not forced

A stop that is not forced is only told to an aircraft that still has to fly home, and the run is to
end with its next report.  Whether it has to is judged by the waypoints, not by the return itself.
The two differ where the last waypoint is reached and something is left to do before the return, and
where no waypoint comes before the return (`Flight.isHomeAhead_eq_iff`); exactly there a stop ends a
run that should wait for the return, or waits for one that has begun (`Engine.stop_unforced`).

Nothing notes that a stop has been told, so what the pilot wanted before it decides how the run goes
on.  The next report that the mission is not flown ends the run unless it reports a pause or the run
is played and was to be paused; then the run is paused (`Engine.Reachable.stop_awaited`).
-/

namespace Sortie.Run

/-! ### The way home -/

namespace Flight

variable {f : Flight}

/-- There is a return to launch, and it is still to begin. -/
def isReturnAhead (f : Flight) : Bool :=
  f.commands.hasReturn && !f.commands.isReturning f.present

theorem isHomeAhead_eq_iff :
    f.isHomeAhead = f.isReturnAhead ↔
      ¬ f.commands.IsLingering f.present ∧ ¬ f.commands.IsBareReturn f.present := by
  cases hreturn : f.commands.hasReturn with
  | true =>
    rw [← Sequence.isReturning_eq_reachedLast_iff hreturn, isHomeAhead, isReturnAhead, hreturn,
      Bool.true_and, Bool.true_and, Bool.not_inj_iff]
    exact eq_comm
  | false =>
    have hnone : f.commands.returnIndex? = none := Option.not_isSome_iff_eq_none.mp (by
      rw [← Sequence.hasReturn, hreturn]
      exact Bool.false_ne_true)
    simp [isHomeAhead, isReturnAhead, hreturn, hnone, Sequence.IsLingering, Sequence.IsBareReturn]

end Flight

namespace Engine

variable {e e' : Engine} {w : Outlook} {log : List Effect} {f : Flight}

/-! ### The stop -/

/-- The aircraft has been told to stop, and nothing else has come of it. -/
structure IsOnlyTold (w : Outlook) (e e' : Engine) (log : List Effect) : Prop where
  log : log = [.order .stop (w.refusal .stop)]
  state : e'.state = e.state
  flight : e'.flight = e.flight
  watch : e'.watch = e.watch
  unsaved : e'.unsaved = e.unsaved

/-- The run waits for the aircraft if it is to, and ends otherwise. -/
def WaitsIf (wait : Bool) (w : Outlook) (e e' : Engine) (log : List Effect) : Prop :=
  if wait then e.IsOnlyTold w e' log else e'.state.phase = .ended

theorem phase_of_isLinked (h : e.isLinked = true) :
    e.state.phase = .playing ∨ e.state.phase = .paused := by
  rw [isLinked] at h
  cases hs : e.state with
  | playing => exact .inl rfl
  | paused => exact .inr rfl
  | noMission | idle | failed | returning | ended =>
    rw [hs] at h
    cases h

theorem IsOnlyTold.not_ended (h : e.IsOnlyTold w e' log) (hl : e.isLinked = true) :
    e'.state.phase ≠ .ended := by
  rw [h.state]
  rcases phase_of_isLinked hl with hp | hp <;> rw [hp] <;> decide

/-- The engine once nothing is counted or put off any more. -/
def quiet (e : Engine) : Engine :=
  { e with counting := false, settling := none, cleanUp := none }

theorem stop_unforced_eq (hf : e.flight = some f) (w : Outlook) :
    e.stop w false =
      if f.isHomeAhead && e.isLinked then e.quiet.order w .stop
      else (({ e.quiet with intent := .stopped } : Engine).order w .stop).finish := by
  unfold stop
  dsimp only
  split
  · next hn =>
    rw [hf] at hn
    cases hn
  · next g hg =>
    obtain rfl := Option.some.inj (hf.symm.trans hg)
    rfl

theorem step_stop_waiting (hf : e.flight = some f) (hahead : f.isHomeAhead = true)
    (hl : e.isLinked = true) (w : Outlook) :
    e.step w (.wish (.stop false))
      = .ok ({ e.quiet with log := [] }, [.order .stop (w.refusal .stop)]) := by
  have hstop : ({ e with log := [] } : Engine).stop w false
      = ({ e with log := [] } : Engine).quiet.order w .stop := by
    rw [stop_unforced_eq (e := { e with log := [] }) hf w]
    refine if_pos ?_
    rw [hahead]
    exact hl
  refine (step_of_handle rfl).trans ?_
  rw [heed, hstop]
  rfl

theorem exists_step_stop_unforced (hf : e.flight = some f) (w : Outlook) :
    ∃ e' log, e.step w (.wish (.stop false)) = .ok (e', log) ∧ sent log = [.stop] ∧
      WaitsIf (f.isHomeAhead && e.isLinked) w e e' log := by
  have hsent {e' : Engine} {log : List Effect}
      (hs : e.step w (.wish (.stop false)) = .ok (e', log)) : sent log = [.stop] := by
    rw [sent_step hs, orders_stop, hf]
    rfl
  by_cases hwait : f.isHomeAhead = true ∧ e.isLinked = true
  · have hs := step_stop_waiting hf hwait.1 hwait.2 w
    refine ⟨_, _, hs, hsent hs, ?_⟩
    rw [hwait.1, hwait.2]
    exact ⟨rfl, rfl, rfl, rfl, rfl⟩
  · rw [← Bool.and_eq_true] at hwait
    let d : Engine := { e with log := [] }
    have hstop : d.stop w false
        = (({ d.quiet with intent := .stopped } : Engine).order w .stop).finish :=
      (stop_unforced_eq (e := d) hf w).trans (if_neg hwait)
    have hs : e.step w (.wish (.stop false)) = _ := step_of_handle rfl
    refine ⟨_, _, hs, hsent hs, ?_⟩
    rw [WaitsIf, if_neg hwait]
    show (d.stop w false).state.phase = .ended
    rw [hstop]
    exact congrArg Registers.phase (registers_finish (e :=
      ({ d.quiet with intent := .stopped } : Engine).order w .stop) hf)

/-- **An unforced stop waits as it is meant to, but for what is between the last waypoint and the
return, and for a return that no waypoint is before.** -/
theorem stop_unforced (hf : e.flight = some f) (w : Outlook) :
    ∃ e' log, e.step w (.wish (.stop false)) = .ok (e', log) ∧ sent log = [.stop] ∧
      WaitsIf (f.isHomeAhead && e.isLinked) w e e' log ∧
      (WaitsIf (f.isReturnAhead && e.isLinked) w e e' log ↔
        (e.isLinked = true →
          ¬ f.commands.IsLingering f.present ∧ ¬ f.commands.IsBareReturn f.present)) := by
  obtain ⟨e', log, hs, hsent, hwaits⟩ := exists_step_stop_unforced hf w
  refine ⟨e', log, hs, hsent, hwaits, ?_⟩
  cases hl : e.isLinked with
  | false =>
    rw [hl, Bool.and_false] at hwaits
    simpa using hwaits
  | true =>
    rw [← Flight.isHomeAhead_eq_iff]
    rw [hl, Bool.and_true] at hwaits
    rw [Bool.and_true, forall_prop_of_true rfl]
    constructor
    · intro hmeant
      cases hhome : f.isHomeAhead <;> cases hreturn : f.isReturnAhead
      · rfl
      · rw [hhome] at hwaits
        rw [hreturn] at hmeant
        exact absurd hwaits (hmeant.not_ended hl)
      · rw [hhome] at hwaits
        rw [hreturn] at hmeant
        exact absurd hmeant (hwaits.not_ended hl)
      · rfl
    · intro heq
      rwa [← heq]

end Engine

/-- Two waypoints, a wait and a way home. -/
def outing : Sequence :=
  [.waypoint ⟨1, 1⟩ 5 0 0 .relative, .waypoint ⟨1, 2⟩ 5 0 0 .relative, .delay 2, .returnToLaunch]

/-- The sample is flown with the outing up to an item. -/
def outward (item : Nat) : List Input :=
  [reportIdle, .notice (.connection true), .notice (.camera .ready), .wish (.setup sample outing),
    .wish .play, .notice (.interface (some { state := .active, executed := some item }))]

/-- At the last waypoint of the outing a stop ends the run. -/
theorem Engine.stop_unforced_outward :
    ∃ f e' log, (trial {} (smoothly (outward 1))).2.flight = some f ∧
      f.commands.IsLingering f.present ∧
      (trial {} (smoothly (outward 1))).2.step {} (.wish (.stop false)) = .ok (e', log) ∧
      sent log = [.stop] ∧ e'.state.phase = .ended ∧
      ¬ WaitsIf (f.isReturnAhead && (trial {} (smoothly (outward 1))).2.isLinked) {}
        (trial {} (smoothly (outward 1))).2 e' log := by
  have hflown : ((trial {} (smoothly (outward 1))).2.flight.map fun f => (f.commands, f.present))
      = some (outing, 1) := by decide +kernel
  have hlinked : (trial {} (smoothly (outward 1))).2.isLinked = true := by decide +kernel
  generalize (trial {} (smoothly (outward 1))).2 = e at *
  obtain ⟨f, hf, hpair⟩ := Option.map_eq_some_iff.mp hflown
  obtain ⟨hcommands, hpresent⟩ := Prod.mk.inj hpair
  have hlinger : f.commands.IsLingering f.present := by
    rw [hcommands, hpresent]
    exact ⟨1, 3, rfl, rfl, by decide, by decide⟩
  have hhome : f.isHomeAhead = false := by
    rw [Flight.isHomeAhead, hcommands, hpresent]
    rfl
  obtain ⟨e', log, hs, hsent, hwaits, hiff⟩ := stop_unforced hf {}
  rw [hhome] at hwaits
  exact ⟨f, e', log, hf, hlinger, hs, hsent, hwaits,
    fun hmeant => (hiff.mp hmeant hlinked).1 hlinger⟩

/-- A stop does not always wait for a return that is still to begin. -/
theorem Engine.not_forall_stop_unforced :
    ¬ ∀ (e : Engine) (f : Flight) (w : Outlook), e.Reachable → e.flight = some f →
      ∃ e' log, e.step w (.wish (.stop false)) = .ok (e', log) ∧ sent log = [.stop] ∧
        WaitsIf (f.isReturnAhead && e.isLinked) w e e' log := by
  intro hall
  have hreachable := reachable_trial {} (smoothly (outward 1))
  have hflown : ((trial {} (smoothly (outward 1))).2.flight.map fun f =>
      (f.isReturnAhead, f.isHomeAhead)) = some (true, false) := by decide +kernel
  have hlinked : (trial {} (smoothly (outward 1))).2.isLinked = true := by decide +kernel
  generalize (trial {} (smoothly (outward 1))).2 = e at *
  obtain ⟨f, hf, hpair⟩ := Option.map_eq_some_iff.mp hflown
  obtain ⟨hreturn, hhome⟩ := Prod.mk.inj hpair
  obtain ⟨e', log, hs, -, hmeant⟩ := hall e f {} hreachable hf
  obtain ⟨e'', log', hs', -, hwaits⟩ := exists_step_stop_unforced hf {}
  obtain ⟨rfl, rfl⟩ := Prod.mk.inj (Except.ok.inj (hs.symm.trans hs'))
  rw [hreturn, hlinked] at hmeant
  rw [hhome] at hwaits
  exact hmeant.not_ended hlinked hwaits

/-! ### Until the next report -/

/-- The aircraft tells that it flies the mission, or where and how it does, or a clock ticks. -/
def Input.bides : Input → Bool
  | .tick | .poll | .notice (.position _) | .notice (.landed _) | .notice (.camera _)
  | .notice (.connection _) => true
  | .notice (.interface report) => report.any (·.state = .active)
  | .wish _ | .timeout _ | .notice (.returnHome ..) | .notice (.cleanedUp ..) => false

namespace Registers

/-- The mission is played and is to be paused. -/
def IsPausing (r : Registers) : Prop :=
  r.phase = .playing ∧ r.intent = .paused

instance (r : Registers) : Decidable r.IsPausing :=
  inferInstanceAs (Decidable (_ ∧ _))

/-- A mission is played or paused with nothing put off.  `pausing` says whether it is played and to
be paused. -/
structure Awaiting (pausing : Prop) (r : Registers) : Prop where
  phase : r.phase = .playing ∨ r.phase = .paused
  loaded : r.loaded.isSome = true
  settled : r.settling = none
  pausing : r.IsPausing ↔ pausing

variable {w : Outlook} {f : Facts} {r r' : Registers} {i : Input} {pausing : Prop}

/-- Only a report that it is flown moves an awaited end on. -/
theorem Awaiting.move (h : r.Awaiting pausing) (hm : Move w f r i r') (hi : i.bides = true)
    (hr : i.reportsActive = false) : r' = r := by
  have hnone : ∀ {s : Settling}, r.settling ≠ some s := by simp [h.settled]
  cases hm with
  | stay => rfl
  | settled _ hs | unsettled hs | exhausted hs => exact absurd hs hnone
  | unready ha | attempt ha | defer ha => cases ha <;> cases hi
  | load | unload | empty | pause | quiet | stop | catchUp | lose | goHome | cleaned | canceled
  | drop | timeout => cases hi
  | rest | hold | finish | start | abandon => exact absurd hi (Bool.eq_false_iff.mp hr)

/-- A mission that is flown is played once it is wanted. -/
def onActive (r : Registers) : Registers :=
  if r.phase = .paused ∧ r.intent = .playing then r.start else r

theorem Awaiting.onActive (h : r.Awaiting pausing) : r.onActive.Awaiting pausing := by
  unfold Registers.onActive
  split
  · next hc =>
    have hnot : ¬ pausing := by
      rw [← h.pausing, IsPausing, hc.1]
      exact fun hn => nomatch hn.1
    refine ⟨.inl rfl, h.loaded, rfl, ?_⟩
    have hstart : ¬ r.start.IsPausing := by
      rintro ⟨-, hi⟩
      cases hc.2.symm.trans hi
    exact iff_of_false hstart hnot
  · exact h

end Registers

namespace Engine

variable {e e' : Engine} {w : Outlook} {i : Input} {log : List Effect} {f : Flight}
  {pausing : Prop}

/-- After a stop that waits, its end is awaited. -/
theorem awaiting_quiet (hf : e.flight = some f) (hl : e.isLinked = true) :
    ({ e.quiet with log := [] } : Engine).registers.Awaiting e.registers.IsPausing :=
  ⟨phase_of_isLinked hl, loaded_isSome hf, rfl, Iff.rfl⟩

theorem registers_onActive_of_running {f : Flight} (hf : e.flight = some f)
    (hp : e.state.phase = .playing ∨ e.state.phase = .paused) :
    (e.onActive w).registers = e.registers.onActive := by
  have hphase : e.registers.phase = e.state.phase := rfl
  have hintent : e.registers.intent = e.intent := rfl
  have hstart := registers_start hf
  unfold onActive Registers.onActive
  rw [hphase, hintent]
  cases hs : e.state with
  | playing => simp [State.phase]
  | paused => cases hi : e.intent <;> simp [State.phase, hstart]
  | noMission | idle | failed | returning | ended =>
    rw [hs] at hp
    rcases hp with hp | hp <;> cases hp

/-- A report that the mission is not flown pauses it, if it tells so or the pilot wants it, and
ends it otherwise. -/
theorem phase_onIdle (hf : e.flight = some f)
    (hp : e.state.phase = .playing ∧ (e.intent = .playing ∨ e.intent = .paused) ∨
      e.state.phase = .paused) (isPaused : Bool) :
    (e.onIdle isPaused).state.phase =
      if isPaused = true ∨ e.registers.IsPausing then .paused else .ended := by
  have hd : (({ e with counting := false } : Engine).showNavigating false).registers
      = { e.registers with counting := false } := registers_showNavigating _ _
  unfold onIdle
  revert hd
  generalize ({ e with counting := false } : Engine).showNavigating false = d
  intro hd
  dsimp only
  have hphase : d.state.phase = e.state.phase := congrArg Registers.phase hd
  have hintent : d.intent = e.intent := congrArg Registers.intent hd
  have hpausing : e.registers.IsPausing ↔ d.state.phase = .playing ∧ d.intent = .paused := by
    rw [hphase, hintent]
    rfl
  have hloaded : d.registers.loaded.isSome = true := by
    rw [hd]
    exact loaded_isSome hf
  obtain ⟨g, hg⟩ := exists_flight hloaded
  have hhold : d.hold.state.phase = .paused := congrArg Registers.phase (registers_hold hg)
  have hfinish : d.finish.state.phase = .ended := congrArg Registers.phase (registers_finish hg)
  rw [← hphase, ← hintent] at hp
  simp only [hpausing]
  cases hs : d.state with
  | playing =>
    rw [hs] at hp
    rcases hp with ⟨-, hi | hi⟩ | hp
    · rw [hi]
      cases isPaused with
      | true => simpa using hhold
      | false => simpa using hfinish
    · rw [hi]
      simpa [State.phase] using hhold
    · cases hp
  | paused =>
    cases isPaused with
    | true => simp [hs, State.phase]
    | false => simpa [State.phase] using hfinish
  | noMission | idle | failed | returning | ended =>
    rw [hs] at hp
    rcases hp with ⟨hp, -⟩ | hp <;> cases hp

theorem awaiting_step (hr : e.Reachable) (h : e.registers.Awaiting pausing)
    (hs : e.step w i = .ok (e', log)) (hi : i.bides = true) : e'.registers.Awaiting pausing := by
  cases ha : i.reportsActive with
  | false => rwa [h.move (move_step hr.coherent.backed hs) hi ha]
  | true =>
    obtain ⟨report, rfl, hactive⟩ := Input.exists_report ha
    obtain ⟨e₁, hh, rfl, -⟩ := handle_of_step hs
    cases hh
    let d : Engine := ({ e with log := [] } : Engine).takeIn report
    have hd : d.registers = e.registers := registers_takeIn { e with log := [] } report
    have hawaiting : d.registers.Awaiting pausing := hd ▸ h
    obtain ⟨f, hf⟩ := exists_flight hawaiting.loaded
    show (({ e with log := [] } : Engine).onInterface w report).registers.Awaiting pausing
    rw [onInterface_eq, if_pos hactive]
    exact registers_onActive_of_running hf hawaiting.phase ▸ hawaiting.onActive

/-- The next report that the mission is not flown is of an end that was awaited. -/
theorem exists_step_of_awaiting (hr : e.Reachable) (h : e.registers.Awaiting pausing) (w : Outlook)
    {report : Option Report} (hrest : report.any (·.state = .active) = false) [Decidable pausing] :
    ∃ e' log, e.step w (.notice (.interface report)) = .ok (e', log) ∧
      e'.state.phase = if report.any (·.isPaused) = true ∨ pausing then .paused else .ended := by
  let d : Engine := ({ e with log := [] } : Engine).takeIn report
  have hd : d.registers = e.registers := registers_takeIn { e with log := [] } report
  have hphase : d.state.phase = e.state.phase := congrArg Registers.phase hd
  have hintent : d.intent = e.intent := congrArg Registers.intent hd
  obtain ⟨f, hf⟩ : ∃ f, d.flight = some f := exists_flight (hd ▸ h.loaded)
  have hrun : d.state.phase = .playing ∧ (d.intent = .playing ∨ d.intent = .paused) ∨
      d.state.phase = .paused := by
    rw [hphase, hintent]
    rcases h.phase with hp | hp
    · exact .inl ⟨hp, hr.intent_of_playing hp⟩
    · exact .inr hp
  have hs : e.step w (.notice (.interface report)) = _ :=
    step_of_handle (e := e) (w := w) (i := .notice (.interface report)) rfl
  refine ⟨_, _, hs, ?_⟩
  show (({ e with log := [] } : Engine).onInterface w report).state.phase = _
  rw [onInterface_eq, if_neg (by simp [hrest]), phase_onIdle hf hrun, hd]
  simp only [h.pausing]

/-- **How a run goes on after a stop that waits.**  The next report that the mission is not flown
ends it, unless that reports a pause or the mission was to be paused when it was stopped. -/
theorem Reachable.stop_awaited (h : e.Reachable) (hf : e.flight = some f)
    (hahead : f.isHomeAhead = true) (hl : e.isLinked = true) (w : Outlook) :
    ∃ e₁ log, e.step w (.wish (.stop false)) = .ok (e₁, log) ∧ e.IsOnlyTold w e₁ log ∧
      ∀ ts e₂, Sequel e₁ ts e₂ → (∀ t ∈ ts, t.input.bides = true) →
        ∀ w₂ report, report.any (·.state = .active) = false →
          ∃ e₃ log₂, e₂.step w₂ (.notice (.interface report)) = .ok (e₃, log₂) ∧
            e₃.state.phase =
              if report.any (·.isPaused) = true ∨ (e.state.phase = .playing ∧ e.intent = .paused)
              then .paused else .ended := by
  have hs := step_stop_waiting hf hahead hl w
  have hawaiting := awaiting_quiet hf hl
  have hreachable := h.step hs
  refine ⟨_, _, hs, ⟨rfl, rfl, rfl, rfl, rfl⟩, fun ts e₂ hsequel hts w₂ report hrest => ?_⟩
  have hkeep {e₁ e₂ : Engine} {t : Turn}
      (h₁ : e₁.Reachable ∧ e₁.registers.Awaiting e.registers.IsPausing) (ht : t.input.bides = true)
      (hs : e₁.step t.outlook t.input = .ok (e₂, t.effects)) :
      e₂.Reachable ∧ e₂.registers.Awaiting e.registers.IsPausing :=
    ⟨h₁.1.step hs, awaiting_step h₁.1 h₁.2 hs ht⟩
  obtain ⟨hreachable₂, hawaiting₂⟩ := (hsequel.keep hkeep ⟨hreachable, hawaiting⟩ hts).1
  exact exists_step_of_awaiting hreachable₂ hawaiting₂ w₂ hrest

end Engine

/-- On the way out the pilot wants a pause, and the aircraft has not confirmed it. -/
def pauseAsked : List Input :=
  outward 0 ++ [.wish .pause]

/-- A mission that is to be paused is stopped, and paused by the next report. -/
theorem Engine.stop_awaited_pausing :
    ∃ e₁ log e₃ log₂, (trial {} (smoothly pauseAsked)).2.step {} (.wish (.stop false))
        = .ok (e₁, log) ∧
      sent log = [.stop] ∧ e₁.step {} reportIdle = .ok (e₃, log₂) ∧ e₃.state.phase = .paused := by
  have hreachable := reachable_trial {} (smoothly pauseAsked)
  have hflown : ((trial {} (smoothly pauseAsked)).2.flight.map Flight.isHomeAhead) = some true := by
    decide +kernel
  have hlinked : (trial {} (smoothly pauseAsked)).2.isLinked = true := by decide +kernel
  have hpausing : (trial {} (smoothly pauseAsked)).2.state.phase = .playing ∧
      (trial {} (smoothly pauseAsked)).2.intent = .paused := by decide +kernel
  generalize (trial {} (smoothly pauseAsked)).2 = e at *
  obtain ⟨f, hf, hahead⟩ := Option.map_eq_some_iff.mp hflown
  obtain ⟨e₁, log, hs, honly, hnext⟩ := hreachable.stop_awaited hf hahead hlinked {}
  obtain ⟨e₃, log₂, hs₂, hphase⟩ := hnext [] e₁ .here (by simp) {} (some { state := .idle }) rfl
  refine ⟨e₁, log, e₃, log₂, hs, ?_, hs₂, ?_⟩
  · rw [honly.log]
    rfl
  · rwa [if_pos (.inr hpausing)] at hphase

/-- A stop that waits does not always have the run ended by the next report. -/
theorem Engine.not_forall_stop_awaited :
    ¬ ∀ (e e₁ e₂ e₃ : Engine) (f : Flight) (w w₂ : Outlook) log log₂ ts report, e.Reachable →
      e.flight = some f → f.isHomeAhead = true → e.isLinked = true →
      e.step w (.wish (.stop false)) = .ok (e₁, log) → Sequel e₁ ts e₂ →
      (∀ t ∈ ts, t.input.bides = true) → report.any (·.state = .active) = false →
      e₂.step w₂ (.notice (.interface report)) = .ok (e₃, log₂) → e₃.state.phase = .ended := by
  intro hall
  have hreachable := reachable_trial {} (smoothly pauseAsked)
  have hflown : ((trial {} (smoothly pauseAsked)).2.flight.map Flight.isHomeAhead) = some true := by
    decide +kernel
  have hlinked : (trial {} (smoothly pauseAsked)).2.isLinked = true := by decide +kernel
  have hpausing : (trial {} (smoothly pauseAsked)).2.registers.IsPausing := by decide +kernel
  generalize (trial {} (smoothly pauseAsked)).2 = e at *
  obtain ⟨f, hf, hahead⟩ := Option.map_eq_some_iff.mp hflown
  have hs := step_stop_waiting hf hahead hlinked {}
  have hawaiting := awaiting_quiet hf hlinked
  have hrest : (some { state := .idle } : Option Report).any (·.state = .active) = false := rfl
  obtain ⟨e₃, log₂, hs₂, hphase⟩ := exists_step_of_awaiting (hreachable.step hs) hawaiting {} hrest
  have hended := hall e _ _ e₃ f {} {} _ log₂ [] _ hreachable hf hahead hlinked hs .here
    (by simp) rfl hs₂
  rw [if_pos (.inr hpausing), hended] at hphase
  cases hphase

end Sortie.Run
