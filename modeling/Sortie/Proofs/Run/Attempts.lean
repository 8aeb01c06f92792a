import Sortie.Proofs.Run.Activations

/-!
# What attempts come to

`Registers.Move` says what an input can do to the registers of a run.  If an attempt is due, there
is only one thing that it does: the attempt begins from the registers with what is put off taken up,
or with the mission expected that the pilot asks for (`Registers.Begins`), and it comes to an
outcome that goes with the order it begins with (`Engine.Due.outcome`).
-/

namespace Sortie.Run

namespace Registers

/-- The registers that an attempt is made from. -/
inductive Begins (r : Registers) : Input → Cause → Registers → Prop
  | asked {i : Input} {restart : Bool} {missionId : String} (ha : r.Asked i restart)
      (hl : r.loaded = some missionId) :
      Begins r i (Settling.cause { restart }) (r.expect missionId)
  | settled {i : Input} {s : Settling} (hi : i.looks = true) (hs : r.settling = some s) :
      Begins r i s.cause { r with settling := none }
  | cleaned {p : PendingCleanUp} (hp : r.cleanUp = some p) (hi : r.intent = .playing) :
      Begins r (.notice (.cleanedUp p.missionId .done)) (.cleanedUp p.startItem)
        { r with cleanUp := none }

end Registers

open Registers (Outcome)

namespace Engine

variable {e e' : Engine} {w : Outlook} {i : Input} {c : Cause} {log : List Effect} {f : Flight}

theorem registers_play (hf : e.flight = some f) (hp : ¬ e.state.phase.IsFlying)
    (hr : e.facts.isReady = true) (w : Outlook) :
    (e.play w).registers =
      ((e.tell (.order .prepare none) |>.setWatch (.activating f.record)).whenSettled w true).registers
    := by
  unfold play
  rw [hf]
  cases hs : e.state with
  | playing | returning => simp [hs, State.phase, Phase.IsFlying] at hp
  | noMission | idle | failed | paused | ended => simp [hr]

theorem registers_unpause (hf : e.flight = some f) (hp : e.state.phase = .paused)
    (hr : e.facts.isPaused = true) (w : Outlook) :
    (e.unpause w).registers = ((e.setWatch (.activating f.record)).whenSettled w false).registers := by
  unfold unpause
  cases hs : e.state with
  | paused => simp [hr, hf]
  | noMission | idle | failed | playing | returning | ended => simp [hs, State.phase] at hp

/-- An attempt that the pilot asks for does not wait if the camera has settled. -/
theorem outcome_whenSettled (hf : e.flight = some f) (hc : e.facts.camera.isSettled = true)
    (restart : Bool) :
    Outcome w (e.registers.expect f.record.missionId) (e.attempt? w (Settling.cause { restart }))
      ((e.setWatch (.activating f.record)).whenSettled w restart).registers := by
  have hc : (e.setWatch (.activating f.record)).facts.camera.isSettled = true := hc
  unfold whenSettled
  rw [if_pos hc]
  exact outcome_launchOrResume (e := e.setWatch (.activating f.record)) hf restart

/-- What was put off is taken up if the camera has settled. -/
theorem outcome_poll (hf : e.flight = some f) {s : Settling} (hs : e.settling = some s)
    (hc : e.facts.camera.isSettled = true) :
    Outcome w { e.registers with settling := none } (e.attempt? w s.cause)
      (e.poll w).registers := by
  unfold poll
  rw [hs]
  dsimp only
  rw [if_pos hc]
  exact outcome_launchOrResume (e := { e with settling := none }) hf s.restart

/-- **An attempt that is due is made**, and it comes to an outcome of the order it begins with. -/
theorem Due.outcome (hd : e.Due i c) (hr : e.registers.Coherent)
    (hs : e.step w i = .ok (e', log)) :
    ∃ r, e.registers.Begins i c r ∧ Outcome w r (e.attempt? w c) e'.registers := by
  obtain ⟨f, hf⟩ := flight_of_cause? hr (cause?_eq_some_iff.mpr hd)
  obtain ⟨e₁, hh, rfl, -⟩ := handle_of_step hs
  let d : Engine := { e with log := [] }
  show ∃ r, e.registers.Begins i c r ∧ Outcome w r (e.attempt? w c) e₁.registers
  cases hd with
  | play _ hp hready hc =>
    cases hh
    refine ⟨_, .asked (.play hp) (loaded_eq_of_flight hf), ?_⟩
    show Outcome w _ _ (d.play w).registers
    rw [registers_play (e := d) hf hp hready]
    exact outcome_whenSettled (e := d.tell (.order .prepare none)) hf hc true
  | unpause hp hpaused hc =>
    cases hh
    refine ⟨_, .asked (.unpause hp) (loaded_eq_of_flight hf), ?_⟩
    show Outcome w _ _ (d.unpause w).registers
    rw [registers_unpause (e := d) hf hp hpaused]
    exact outcome_whenSettled (e := d) hf hc false
  | @settled i s hi hsettling hc =>
    refine ⟨_, .settled hi hsettling, ?_⟩
    cases i with
    | poll => cases hh; exact outcome_poll (e := d) hf hsettling hc
    | notice n =>
      cases n with
      | camera camera =>
        cases hh
        have hc : camera.isSettled = true := hc
        show Outcome w _ _ (d.onCamera w camera).registers
        unfold onCamera
        dsimp only
        rw [if_pos (by simp [d, hsettling, hc])]
        exact outcome_poll (e := { d with facts := { d.facts with camera } }) hf hsettling hc
      | interface | returnHome | connection | landed | position | cleanedUp => cases hi
    | wish | tick | timeout => cases hi
  | @cleaned p hp hi =>
    cases hh
    refine ⟨_, .cleaned hp hi, ?_⟩
    show Outcome w _ _ (d.onCleanedUp w p.missionId .done).registers
    have hwanted : ({ d with cleanUp := none } : Engine).registers
        = ({ e.registers with cleanUp := none } : Registers).want := by
      simp only [d, registers, Registers.want, hi, missionId?, execution?]
    have hactivate : d.onCleanedUp w p.missionId .done
        = ({ d with cleanUp := none } : Engine).activate w p.startItem true := by
      simp [onCleanedUp, d, hp, hi]
    have hattempt : e.attempt? w (.cleanedUp p.startItem)
        = some (.activate (f.activation p.startItem true)) := by
      rw [attempt?, hf]
      rfl
    rw [hactivate, hattempt]
    exact outcome_activate (e := { d with cleanUp := none }) hf hwanted p.startItem true

end Engine

end Sortie.Run
