import Sortie.Proofs.Run.Coherence

/-!
# Reports that contradict the pilot

An aircraft that flies a mission which the pilot wants stopped or paused is told again.  A mission
that is played is never wanted stopped (`Reachable.intent_of_playing`), so while a mission is loaded
and not on its way home, such an aircraft is always told to stop.  It is not always told to pause:
nobody tells it while the mission is still played, though the order to pause it was refused or not
obeyed, nor once the run has ended (`Reachable.redriven`).
-/

namespace Sortie.Run

namespace Registers

variable {w : Outlook} {f : Facts} {r r' : Registers} {i : Input} {o : Option Order}

/-- A mission that is played is wanted, or it is to be paused. -/
def IsPursued (r : Registers) : Prop :=
  r.phase = .playing → r.intent = .playing ∨ r.intent = .paused

/-- An attempt at an activation does not make a mission played. -/
theorem Outcome.not_playing (h : Outcome w r o r') (hp : r.phase ≠ .playing) :
    r'.phase ≠ .playing := by
  cases h with
  | sent | cleaning => exact hp
  | grounded | rejected | canceled => exact nofun

theorem Coherent.isPursued_move (hr : r.Coherent) (h : r.IsPursued) (hm : Move w f r i r') :
    r'.IsPursued := by
  intro hp
  cases hm with
  | stay | quiet | rest | unsettled | drop => exact h hp
  | pause => exact .inr rfl
  | catchUp => exact .inl rfl
  | start hi => exact .inl hi
  | load | unload | empty | unready | stop | lose | hold | finish | abandon | goHome | exhausted
  | canceled | timeout => cases hp
  | defer ha hl => exact absurd hp (hr.waiting_of_asked ha (by simp [hl])).not_playing
  | attempt ha hl _ ho =>
    exact absurd hp (ho.not_playing (hr.waiting_of_asked ha (by simp [hl])).not_playing)
  | settled _ hs _ ho => exact absurd hp (ho.not_playing (hr.of_settling (by simp [hs])).not_playing)
  | cleaned hc _ ho => exact absurd hp (ho.not_playing (hr.of_cleanUp (by simp [hc])).not_playing)

end Registers

namespace Engine

variable {e : Engine} {w : Outlook}

theorem Reachable.intent_of_playing (h : e.Reachable) (hp : e.state.phase = .playing) :
    e.intent = .playing ∨ e.intent = .paused := by
  refine Reachable.induction (P := fun e => e.registers.IsPursued) ?_ ?_ h hp
  · intro settings hn
    cases hn
  · intro e e' w i log he ih hs
    exact he.coherent.isPursued_move ih (move_step he.coherent.backed hs)

/-- A report of a mission that is not wanted changes the registers only if it unloads the mission. -/
theorem registers_onActive_of_not_wanted (hi : e.intent ≠ .playing) :
    (e.onActive w).registers =
      if e.intent = .stopped ∧ (e.state.phase = .noMission ∨ e.state.phase = .ended) then
        e.registers.unload
      else e.registers := by
  unfold onActive
  cases e.state with
  | playing | returning => simp [State.phase]
  | failed | paused | idle => cases hc : e.intent <;> simp_all [State.phase]
  | noMission | ended =>
    by_cases hc : e.intent = .stopped
    · simp [hc, State.phase, registers_unload]
    · simp [hc]

/-- What the engine does with a report of a mission that is flown but not wanted. -/
theorem exists_step_active (hi : e.intent ≠ .playing) (w : Outlook) {r : Report}
    (hr : r.state = .active) :
    ∃ e' log, e.step w (.notice (.interface (some r))) = .ok (e', log) ∧
      sent log = e.correction ∧
      e'.registers =
        if e.intent = .stopped ∧ (e.state.phase = .noMission ∨ e.state.phase = .ended) then
          e.registers.unload
        else e.registers := by
  let d : Engine := { e with log := [] }
  have hd : (d.takeIn (some r)).registers = e.registers := registers_takeIn d (some r)
  have hintent : (d.takeIn (some r)).intent = e.intent := congrArg Registers.intent hd
  have hphase : (d.takeIn (some r)).state.phase = e.state.phase := congrArg Registers.phase hd
  have hs : e.step w (.notice (.interface (some r))) = _ :=
    step_of_handle (e := e) (w := w) (i := .notice (.interface (some r))) rfl
  refine ⟨_, _, hs, by rw [sent_step hs, orders_interface, if_pos (by simp [hr])], ?_⟩
  show (d.onInterface w (some r)).registers = _
  rw [onInterface_eq, if_pos (by simp [hr]),
    registers_onActive_of_not_wanted (hintent.symm ▸ hi), hintent, hphase, hd]

/-- **An aircraft that flies a mission against the pilot's wish is told again.**  If the mission is
wanted stopped, it is always told so.  If it is wanted paused, it is told so unless the mission is
still played or has ended.  In no case the mission is started. -/
theorem Reachable.redriven (h : e.Reachable) (hl : e.flight.isSome = true)
    (hp : e.state.phase ≠ .returning) (w : Outlook) {r : Report} (hr : r.state = .active) :
    (e.intent = .stopped → ∃ e' log, e.step w (.notice (.interface (some r))) = .ok (e', log) ∧
      sent log = [.stop] ∧ e'.state.phase ≠ .playing) ∧
    (e.intent = .paused → ∃ e' log, e.step w (.notice (.interface (some r))) = .ok (e', log) ∧
      sent log = (if e.state.phase = .playing ∨ e.state.phase = .ended then [] else [.deactivate]) ∧
      e'.state.phase = e.state.phase) := by
  obtain ⟨f, hf⟩ := Option.isSome_iff_exists.mp hl
  have hm : e.state.phase.HasMission := h.coherent.loaded_iff.mp (loaded_isSome hf)
  constructor
  · intro hi
    have hn : e.state.phase ≠ .playing := by
      intro hplaying
      rcases h.intent_of_playing hplaying with hc | hc <;> cases hi.symm.trans hc
    obtain ⟨e', log, hs, hsent, hreg⟩ := exists_step_active (e := e) (by simp [hi]) w hr
    refine ⟨e', log, hs, ?_, ?_⟩
    · rw [hsent]
      unfold correction
      rw [hi]
      cases hc : e.state.phase <;> simp_all
    · show e'.registers.phase ≠ .playing
      rw [hreg]
      split
      · exact nofun
      · exact hn
  · intro hi
    obtain ⟨e', log, hs, hsent, hreg⟩ := exists_step_active (e := e) (by simp [hi]) w hr
    refine ⟨e', log, hs, ?_, ?_⟩
    · rw [hsent]
      unfold correction
      rw [hi]
      have hn : e.state.phase ≠ .noMission := hm.1
      cases hc : e.state.phase <;> simp_all
    · have hphase := congrArg Registers.phase hreg
      rwa [if_neg (by simp [hi])] at hphase

/-- A paused mission is flown on without having been resumed. -/
theorem redriven_paused :
    ∃ e' log, (trial {} (smoothly (departure ++ [.wish .pause, reportPaused]))).2.step {} reportActive
        = .ok (e', log) ∧
      sent log = [.deactivate] ∧ e'.state.phase = .paused := by
  obtain ⟨e', log, hs, hsent, hphase⟩ :=
    ((reachable_trial {} (smoothly (departure ++ [.wish .pause, reportPaused]))).redriven (by decide)
      (by decide) {} (r := { state := .active }) rfl).2 (by decide)
  exact ⟨e', log, hs, hsent.trans (by decide), hphase.trans (by decide)⟩

/-- The pilot has had the mission paused, and the aircraft flies on. -/
def disobedience : List Input :=
  departure ++ [.wish .pause]

/-- An aircraft that is to pause the mission may fly on without being told again. -/
theorem not_forall_redriven :
    ¬ ∀ (e : Engine) (w : Outlook) (r : Report), Reachable e → e.flight.isSome = true →
      e.state.phase ≠ .returning → r.state = .active →
      (e.intent = .stopped → ∃ e' log, e.step w (.notice (.interface (some r))) = .ok (e', log) ∧
        sent log = [.stop] ∧ (e'.state.phase = .playing → e.state.phase = .playing)) ∧
      (e.intent = .paused → ∃ e' log, e.step w (.notice (.interface (some r))) = .ok (e', log) ∧
        sent log = [.deactivate] ∧ (e'.state.phase = .playing → e.state.phase = .playing)) := by
  intro hall
  have hreachable := reachable_trial {} (smoothly disobedience)
  obtain ⟨e', log, hs, hsent, -⟩ := (hall _ {} { state := .active } hreachable (by decide)
    (by decide) rfl).2 (by decide)
  rw [sent_step hs] at hsent
  exact absurd hsent (by decide)

end Engine

end Sortie.Run
