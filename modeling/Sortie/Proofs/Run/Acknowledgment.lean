import Sortie.Proofs.Run.Coherence
import Sortie.Proofs.Run.Orders

/-!
# Acknowledgment of an activation

An activation is outstanding while the watch waits for the loaded mission, the pilot wants it
flown, and the aircraft has accepted to fly it since the pilot last asked for it.  A report that
the mission is active should then start it.  It does from every phase but two: a run that has
ended or is on its way home stays as it is, though a mission can be played again after its end
(`History.acknowledged`).
-/

namespace Sortie.Run

/-- The aircraft accepts to fly the mission. -/
def Effect.acceptsActivation : Effect → Bool
  | .order o none => o.activates
  | .order _ (some _) | .event _ | .show _ => false

/-- The aircraft has accepted an activation since the pilot last asked for one. -/
def acceptedSince : List Turn → Bool
  | [] => false
  | t :: ts => t.effects.any Effect.acceptsActivation || (!t.asks && acceptedSince ts)

structure Outstanding (ts : List Turn) (e : Engine) : Prop where
  activating : ∃ missionId, e.missionId? = some missionId ∧ e.watch.activatingId? = some missionId
  wanted : e.intent = .playing
  accepted : acceptedSince ts = true

namespace Engine

variable {e : Engine} {w : Outlook}

/-- A loaded mission that is wanted starts from every phase in which it is neither flown nor
ended. -/
theorem registers_onActive {f : Flight} (hf : e.flight = some f) (hi : e.intent = .playing)
    (hm : e.state.phase.HasMission) (hp : e.state.phase ≠ .playing) :
    (e.onActive w).registers =
      if e.state.phase = .ended ∨ e.state.phase = .returning then e.registers
      else e.registers.start := by
  have hstart := registers_start hf
  unfold onActive
  cases hs : e.state with
  | noMission => exact absurd (congrArg State.phase hs) hm.1
  | playing connected x homeward => exact absurd (congrArg State.phase hs) hp
  | returning | ended => simp [State.phase, hi]
  | idle | failed | paused => simpa [State.phase, hi] using hstart

theorem correction_eq_nil (hi : e.intent = .playing) : e.correction = [] := by
  unfold correction
  rw [hi]
  cases e.state.phase <;> rfl

end Engine

open Engine

/-- What a report of an active mission does to the registers while an activation is outstanding. -/
theorem Outstanding.registers_step {settings : RunSettings} {ts : List Turn} {e : Engine}
    (h : History settings ts e) (ho : Outstanding ts e) (w : Outlook) {r : Report}
    (hr : r.state = .active) :
    ∃ e' log, e.step w (.notice (.interface (some r))) = .ok (e', log) ∧
      dispatches e.state log = [] ∧
      e'.registers = if e.state.phase = .ended ∨ e.state.phase = .returning then e.registers
        else e.registers.start := by
  obtain ⟨missionId, hid, ha⟩ := ho.activating
  have hc : e.registers.Coherent := Reachable.coherent ⟨settings, ts, h⟩
  have hwatch : e.registers.watch = .activating missionId :=
    (Watch.activatingId?_eq_some_iff _ _).mp ha
  have hl : e.registers.loaded.isSome = true := Option.isSome_iff_exists.mpr ⟨missionId, hid⟩
  have hm : e.state.phase.HasMission := hc.loaded_iff.mp hl
  -- A mission that is played as wanted is active already, and not activating.
  have hp : e.state.phase ≠ .playing := by
    intro hp
    rw [hc.active_of_wanted hp ho.wanted] at hwatch
    cases hwatch
  let d : Engine := { e with log := [] }
  have hd : (d.takeIn (some r)).registers = e.registers := registers_takeIn d (some r)
  obtain ⟨f, hf⟩ : ∃ f, (d.takeIn (some r)).flight = some f := exists_flight (hd ▸ hl)
  have hphase : (d.takeIn (some r)).state.phase = e.state.phase := congrArg Registers.phase hd
  have hs : e.step w (.notice (.interface (some r))) = _ :=
    step_of_handle (e := e) (w := w) (i := .notice (.interface (some r))) rfl
  refine ⟨_, _, hs, ?_, ?_⟩
  · rw [dispatches_step hs, orders_interface, correction_eq_nil ho.wanted, ite_self]
    rfl
  · show (d.onInterface w (some r)).registers = _
    rw [onInterface_eq, if_pos (by simp [hr]),
      registers_onActive hf ((congrArg Registers.intent hd).trans ho.wanted)
        (hphase.symm ▸ hm) (hphase.symm ▸ hp), hphase, hd]

/-- **An acknowledgment starts the mission unless the run has ended or is on its way home.**  Then
it is passed over: no order is given, and the watch goes on waiting. -/
theorem History.acknowledged {settings : RunSettings} {ts : List Turn} {e : Engine}
    (h : History settings ts e) (ho : Outstanding ts e) (w : Outlook) {r : Report}
    (hr : r.state = .active) :
    ∃ e' log, e.step w (.notice (.interface (some r))) = .ok (e', log) ∧
      ((e'.state.phase = .playing ∧ e'.watch.hasActive = true) ↔
        e.state.phase ≠ .ended ∧ e.state.phase ≠ .returning) ∧
      (e.state.phase = .ended ∨ e.state.phase = .returning →
        e'.registers = e.registers ∧ dispatches e.state log = []) := by
  obtain ⟨e', log, hs, hlog, hreg⟩ := ho.registers_step h w hr
  refine ⟨e', log, hs, ?_, fun hover => ⟨hreg.trans (if_pos hover), hlog⟩⟩
  have hp : e'.state.phase = e'.registers.phase := rfl
  rw [Watch.hasActive_iff, hp, show e'.watch.stage = e'.registers.watch from rfl, hreg, ← not_or]
  split
  · next hover =>
    refine ⟨fun ⟨hplaying, _⟩ => ?_, fun hn => absurd hover hn⟩
    have hplaying : e.state.phase = .playing := hplaying
    rw [hplaying] at hover
    simp at hover
  · next hn => exact ⟨fun _ => hn, fun _ => ⟨rfl, rfl⟩⟩

theorem acknowledged_play :
    ∃ e' log, (trial {} (smoothly (preparation ++ [.wish .play]))).2.step {} reportActive
        = .ok (e', log) ∧
      e'.state.phase = .playing ∧ e'.watch.hasActive = true := by
  obtain ⟨e', log, hs, hiff, -⟩ :=
    (history_trial {} (smoothly (preparation ++ [.wish .play]))).acknowledged
      ⟨⟨"field", by decide, by decide⟩, by decide, by decide⟩ {} (r := { state := .active }) rfl
  exact ⟨e', log, hs, hiff.mpr (by decide)⟩

/-- The mission has been flown, and the pilot plays it again. -/
def encore : List Input :=
  departure ++ [reportIdle, .wish .play]

/-- An acknowledgment can be passed over. -/
theorem not_forall_acknowledged :
    ¬ ∀ settings ts e, History settings ts e → Outstanding ts e →
      ∀ (w : Outlook) (r : Report), r.state = .active →
        ∃ e' log, e.step w (.notice (.interface (some r))) = .ok (e', log) ∧
          e'.state.phase = .playing ∧ e'.watch.hasActive = true := by
  intro hall
  have ho : Outstanding (trial {} (smoothly encore)).1 (trial {} (smoothly encore)).2 :=
    ⟨⟨"field", by decide, by decide⟩, by decide, by decide⟩
  obtain ⟨e', log, hs, hp, -⟩ := hall {} _ _ (history_trial {} (smoothly encore)) ho {}
    { state := .active } rfl
  have hended : ((trial {} (smoothly encore)).2.step {} reportActive).map (·.1.state.phase)
      = .ok .ended := by rfl
  rw [reportActive, hs] at hended
  have hended : e'.state.phase = .ended := Except.ok.inj hended
  rw [hp] at hended
  cases hended

end Sortie.Run
