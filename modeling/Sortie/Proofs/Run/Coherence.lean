import Sortie.Proofs.Run.Moves

/-!
# Coherence of the registers

The registers of a run are written along many paths, and no one of them is right by itself.
`Registers.Coherent` is what they say together: time is counted only for a mission that the watch
calls active; such a mission is flown, and nothing of it is put off; a mission that is played and
wanted so is active; and only a loaded mission is wanted or put off.

Activations start from registers that are `Waiting`: coherent, with a mission loaded that is
neither played nor active.  From these any outcome of an attempt is coherent again, and each move
either leaves the registers coherent by itself or is such an outcome (`Coherent.move`).
-/

namespace Sortie.Run

namespace Registers

structure Coherent (r : Registers) : Prop where
  active_of_counting : r.counting = true → r.watch = .active
  flying_of_active : r.watch = .active → r.phase.IsFlying
  ready_of_active : r.watch = .active → r.settling = none ∧ r.cleanUp = none
  ready_of_playing : r.phase = .playing → r.settling = none ∧ r.cleanUp = none
  active_of_wanted : r.phase = .playing → r.intent = .playing → r.watch = .active
  loaded_iff : r.loaded.isSome = true ↔ r.phase.HasMission
  loaded_of_deferred : r.settling.isSome = true ∨ r.cleanUp.isSome = true → r.loaded.isSome = true
  loaded_of_wanted : r.intent = .playing → r.loaded.isSome = true

/-- A mission is loaded that is neither played nor active. -/
structure Waiting (r : Registers) : Prop where
  coherent : r.Coherent
  loaded : r.loaded.isSome = true
  not_playing : r.phase ≠ .playing
  not_active : r.watch ≠ .active

variable {r : Registers}

theorem Coherent.of_settling (h : r.Coherent) (hs : r.settling.isSome = true) : r.Waiting := by
  refine ⟨h, h.loaded_of_deferred (.inl hs), fun hp => ?_, fun ha => ?_⟩
  · rw [(h.ready_of_playing hp).1] at hs
    cases hs
  · rw [(h.ready_of_active ha).1] at hs
    cases hs

theorem Coherent.of_cleanUp (h : r.Coherent) (hc : r.cleanUp.isSome = true) : r.Waiting := by
  refine ⟨h, h.loaded_of_deferred (.inr hc), fun hp => ?_, fun ha => ?_⟩
  · rw [(h.ready_of_playing hp).2] at hc
    cases hc
  · rw [(h.ready_of_active ha).2] at hc
    cases hc

theorem Coherent.counting_eq (h : r.Coherent) (ha : r.watch ≠ .active) : r.counting = false := by
  cases hc : r.counting with
  | false => rfl
  | true => exact absurd (h.active_of_counting hc) ha

theorem Waiting.counting_eq (h : r.Waiting) : r.counting = false :=
  h.coherent.counting_eq h.not_active

/-- Without a mission there is nothing that is wanted, active or put off. -/
theorem Coherent.of_unloaded (h : r.Coherent) (hl : r.loaded = none) :
    r.watch ≠ .active ∧ r.settling = none ∧ r.cleanUp = none ∧ r.intent ≠ .playing := by
  have hn : ¬ r.loaded.isSome = true := by rw [hl]; exact Bool.false_ne_true
  refine ⟨fun ha => hn (h.loaded_iff.mpr (h.flying_of_active ha).hasMission), ?_, ?_,
    fun hi => hn (h.loaded_of_wanted hi)⟩
  · exact Option.not_isSome_iff_eq_none.mp fun hs => hn (h.loaded_of_deferred (.inl hs))
  · exact Option.not_isSome_iff_eq_none.mp fun hc => hn (h.loaded_of_deferred (.inr hc))

/-! ### The phases of a loaded mission -/

theorem coherent_start (hl : r.loaded.isSome = true) : r.start.Coherent where
  active_of_counting _ := rfl
  flying_of_active _ := .inl rfl
  ready_of_active _ := ⟨rfl, rfl⟩
  ready_of_playing _ := ⟨rfl, rfl⟩
  active_of_wanted _ _ := rfl
  loaded_iff := by simp [start, hl, Phase.HasMission]
  loaded_of_deferred _ := hl
  loaded_of_wanted _ := hl

theorem coherent_hold (hl : r.loaded.isSome = true) : r.hold.Coherent where
  active_of_counting h := by cases h
  flying_of_active h := by cases h
  ready_of_active h := by cases h
  ready_of_playing h := by cases h
  active_of_wanted h := by cases h
  loaded_iff := by simp [hold, hl, Phase.HasMission]
  loaded_of_deferred _ := hl
  loaded_of_wanted _ := hl

theorem coherent_finish (hl : r.loaded.isSome = true) : r.finish.Coherent where
  active_of_counting h := by cases h
  flying_of_active h := by cases h
  ready_of_active h := by cases h
  ready_of_playing h := by cases h
  active_of_wanted h := by cases h
  loaded_iff := by simp [finish, hl, Phase.HasMission]
  loaded_of_deferred _ := hl
  loaded_of_wanted _ := hl

/-- The watch may stay on a mission that was not run, but never as active. -/
theorem Coherent.unload (h : r.Coherent) : r.unload.Coherent := by
  have ha : r.unload.watch ≠ .active := by
    intro ha
    unfold Registers.unload at ha
    dsimp only at ha
    split at ha
    · cases ha
    · next hr => exact hr (.inl (h.flying_of_active ha))
  refine ⟨?_, fun h => absurd h ha, fun h => absurd h ha, ?_, ?_, ?_, ?_, ?_⟩ <;>
    simp [Registers.unload, Phase.HasMission]

/-- A phase of a loaded mission that is not played and not active. -/
theorem coherent_enter (hl : r.loaded.isSome = true) (hc : r.counting = false) {p : Phase}
    (hm : p.HasMission) (hp : p ≠ .playing) {s : Stage} (hs : s ≠ .active) :
    ((r.see s).enter p).Coherent where
  active_of_counting hn := by
    have hn : r.counting = true := hn
    rw [hc] at hn
    cases hn
  flying_of_active ha := absurd ha hs
  ready_of_active ha := absurd ha hs
  ready_of_playing ha := absurd ha hp
  active_of_wanted ha := absurd ha hp
  loaded_iff := ⟨fun _ => hm, fun _ => hl⟩
  loaded_of_deferred _ := hl
  loaded_of_wanted _ := hl

theorem Waiting.enter (h : r.Waiting) {p : Phase} (hm : p.HasMission) (hp : p ≠ .playing)
    {s : Stage} (hs : s ≠ .active) : ((r.see s).enter p).Waiting :=
  ⟨coherent_enter h.loaded h.counting_eq hm hp hs, h.loaded, hp, hs⟩

theorem Waiting.expect (h : r.Waiting) (missionId : String) : (r.expect missionId).Waiting :=
  h.enter (p := r.phase) (s := .activating missionId) (h.coherent.loaded_iff.mp h.loaded)
    h.not_playing (by simp)

/-- What is wanted and put off does not matter to registers that are waiting. -/
theorem Waiting.defer (h : r.Waiting) (intent : Intent) (settling : Option Settling)
    (cleanUp : Option PendingCleanUp) :
    ({ r with intent, settling, cleanUp } : Registers).Waiting where
  coherent :=
    { active_of_counting := h.coherent.active_of_counting
      flying_of_active := h.coherent.flying_of_active
      ready_of_active := fun ha => absurd ha h.not_active
      ready_of_playing := fun hp => absurd hp h.not_playing
      active_of_wanted := fun hp => absurd hp h.not_playing
      loaded_iff := h.coherent.loaded_iff
      loaded_of_deferred := fun _ => h.loaded
      loaded_of_wanted := fun _ => h.loaded }
  loaded := h.loaded
  not_playing := h.not_playing
  not_active := h.not_active

theorem Coherent.quiet (h : r.Coherent) : r.quiet.Coherent where
  active_of_counting hn := by cases hn
  flying_of_active := h.flying_of_active
  ready_of_active _ := ⟨rfl, rfl⟩
  ready_of_playing _ := ⟨rfl, rfl⟩
  active_of_wanted := h.active_of_wanted
  loaded_iff := h.loaded_iff
  loaded_of_deferred hn := by rcases hn with hn | hn <;> cases hn
  loaded_of_wanted := h.loaded_of_wanted

/-- The way home begins.  The watch and what is put off stay as they are. -/
theorem Coherent.enter_returning (h : r.Coherent) (hr : r.phase.IsRunning) :
    (r.enter .returning).Coherent where
  active_of_counting := h.active_of_counting
  flying_of_active _ := .inr rfl
  ready_of_active := h.ready_of_active
  ready_of_playing hp := by cases hp
  active_of_wanted hp := by cases hp
  loaded_iff := ⟨fun _ => Phase.IsFlying.hasMission (.inr rfl),
    fun _ => h.loaded_iff.mpr hr.hasMission⟩
  loaded_of_deferred := h.loaded_of_deferred
  loaded_of_wanted := h.loaded_of_wanted

/-- Another mission is loaded in place of one that is unloaded. -/
theorem Coherent.load {missionId : String} (h : r.unload.Coherent) :
    ({ r.unload with phase := .idle, loaded := some missionId } : Registers).Coherent := by
  have ha : r.unload.watch ≠ .active := by
    intro ha
    rcases h.flying_of_active ha with hf | hf <;> cases hf
  exact {
    active_of_counting := h.active_of_counting
    flying_of_active := fun hn => absurd hn ha
    ready_of_active := fun hn => absurd hn ha
    ready_of_playing := fun hn => by cases hn
    active_of_wanted := fun hn => by cases hn
    loaded_iff := by simp [Phase.HasMission]
    loaded_of_deferred := fun _ => rfl
    loaded_of_wanted := fun _ => rfl }

/-- A mission that is played is to be paused.  It stays in its phase. -/
theorem Coherent.pause (h : r.Coherent) (hp : r.phase = .playing) :
    ({ r with intent := .paused, watch := .none, counting := false, settling := none } :
      Registers).Coherent := by
  have hl : r.loaded.isSome = true := h.loaded_iff.mpr (hp ▸ Phase.IsFlying.hasMission (.inl rfl))
  exact {
    active_of_counting := fun hn => by cases hn
    flying_of_active := fun hn => by cases hn
    ready_of_active := fun hn => by cases hn
    ready_of_playing := fun _ => ⟨rfl, (h.ready_of_playing hp).2⟩
    active_of_wanted := fun _ hn => by cases hn
    loaded_iff := h.loaded_iff
    loaded_of_deferred := fun _ => hl
    loaded_of_wanted := fun _ => hl }

/-- A phase without a mission. -/
theorem Coherent.enter_of_unloaded (h : r.Coherent) (hl : r.loaded = none) {p : Phase}
    (hp : ¬ p.HasMission) : (r.enter p).Coherent := by
  obtain ⟨ha, hs, hc, hi⟩ := h.of_unloaded hl
  exact {
    active_of_counting := fun hn => h.active_of_counting hn
    flying_of_active := fun hn => absurd hn ha
    ready_of_active := fun hn => absurd hn ha
    ready_of_playing := fun _ => ⟨hs, hc⟩
    active_of_wanted := fun _ hn => absurd hn hi
    loaded_iff := by simp [enter, hl, hp]
    loaded_of_deferred := fun hn => h.loaded_of_deferred hn
    loaded_of_wanted := fun hn => absurd hn hi }

theorem Waiting.fail (h : r.Waiting) {f : Failure} (hf : f ≠ .noMission) : (r.fail f).Coherent :=
  ((h.defer .none none none).enter (p := .failed f) (s := .none)
    ⟨by simp, fun he => hf (Phase.failed.inj he)⟩ (by simp) (by simp)).coherent

/-! ### Moves -/

theorem Coherent.backed (h : r.Coherent) : r.Backed where
  of_running hp := h.loaded_iff.mpr hp.hasMission
  of_wanted := h.loaded_of_wanted
  of_settling hs := h.loaded_of_deferred (.inl hs)
  of_cleanUp hc := h.loaded_of_deferred (.inr hc)

theorem Coherent.waiting_of_asked (h : r.Coherent) {i : Input} {restart : Bool}
    (ha : r.Asked i restart) (hl : r.loaded.isSome = true) : r.Waiting := by
  have hp : ¬ r.phase.IsFlying := by
    cases ha with
    | play hp => exact hp
    | unpause hp => simp [hp, Phase.IsFlying]
  exact ⟨h, hl, fun hn => hp (.inl hn), fun hn => hp (h.flying_of_active hn)⟩

theorem Waiting.outcome (h : r.Waiting) {w : Outlook} {o : Option Order} {r' : Registers}
    (ho : Outcome w r o r') : r'.Coherent := by
  cases ho with
  | grounded => exact (h.enter (by simp [Phase.HasMission]) (by simp) (by simp)).coherent
  | sent => exact (h.defer .playing r.settling r.cleanUp).coherent
  | cleaning => exact (h.defer .playing r.settling _).coherent
  | rejected | canceled => exact h.fail (by simp)

/-- **Every move keeps the registers coherent.** -/
theorem Coherent.move (h : r.Coherent) {w : Outlook} {f : Facts} {i : Input} {r' : Registers}
    (hm : Move w f r i r') : r'.Coherent := by
  cases hm with
  | stay => exact h
  | load x s => exact h.unload.load
  | unload | abandon => exact h.unload
  | empty hl => exact h.enter_of_unloaded hl (by simp [Phase.HasMission])
  | unready ha hl =>
    have hw := h.waiting_of_asked ha hl
    exact (hw.enter (p := .failed .interfaceNotReady) (by simp [Phase.HasMission]) (by simp)
      hw.not_active).coherent
  | attempt ha hl _ ho => exact ((h.waiting_of_asked ha (by simp [hl])).expect _).outcome ho
  | @defer _ _ missionId ha hl =>
    have hw := (h.waiting_of_asked ha (by simp [hl])).expect missionId
    exact (hw.defer r.intent _ r.cleanUp).coherent
  | pause hp => exact h.pause hp
  | quiet => exact h.quiet
  | stop _ hl => exact coherent_finish hl
  | catchUp _ _ _ hl => exact coherent_start hl
  | lose _ hp => exact coherent_finish (h.backed.of_running (.inr hp))
  | rest => exact { h with active_of_counting := fun hn => by cases hn }
  | hold _ hp => exact coherent_hold (h.backed.of_running (.inl hp))
  | finish _ hp => exact coherent_finish (h.backed.of_running hp)
  | start _ hl => exact coherent_start hl
  | goHome hp => exact h.enter_returning hp
  | settled _ hs _ ho =>
    exact ((h.of_settling (by simp [hs])).defer r.intent none r.cleanUp).outcome ho
  | unsettled hs => exact ((h.of_settling (by simp [hs])).defer r.intent _ r.cleanUp).coherent
  | exhausted hs => exact (h.of_settling (by simp [hs])).fail (by simp)
  | cleaned hc _ ho =>
    exact ((h.of_cleanUp (by simp [hc])).defer r.intent r.settling none).outcome ho
  | canceled hc => exact (h.of_cleanUp (by simp [hc])).fail (by simp)
  | drop _ hc => exact ((h.of_cleanUp (by simp [hc])).defer r.intent r.settling none).coherent
  | timeout hl hw =>
    have hc : r.counting = false := h.counting_eq (by simp [hw])
    refine coherent_enter (r := { r with intent := .stopped, settling := none, cleanUp := none })
      ?_ hc ?_ ?_ ?_
    · simp [hl]
    · simp [Phase.HasMission]
    · simp
    · simp

end Registers

namespace Engine

variable {e : Engine}

theorem coherent_fresh (settings : RunSettings) :
    ({ settings } : Engine).registers.Coherent := by
  constructor <;> simp [registers, State.phase, Watch.stage, missionId?, execution?, Phase.HasMission]

/-- **The registers of a reachable engine are coherent.** -/
theorem Reachable.coherent (h : e.Reachable) : e.registers.Coherent := by
  refine Reachable.induction (P := fun e => e.registers.Coherent) coherent_fresh ?_ h
  intro e e' w i log _ ih hs
  exact ih.move (move_step ih.backed hs)

/-! ### Active missions -/

/-- **An active mission is flown, and a mission that is flown as wanted is active.**  While time is
counted the watch calls the mission active; while it does so, the mission is played or on its way
home, and no activation waits for the camera or for old media; and a mission that is played and
wanted so is active. -/
theorem Reachable.active_flown (h : e.Reachable) :
    (e.counting = true → e.watch.hasActive = true) ∧
    (e.watch.hasActive = true →
      (e.state.phase = .playing ∨ e.state.phase = .returning) ∧
      e.settling = none ∧ e.cleanUp = none) ∧
    (e.state.phase = .playing → e.intent = .playing → e.watch.hasActive = true) := by
  have hc := h.coherent
  rw [Watch.hasActive_iff]
  refine ⟨hc.active_of_counting, fun ha => ?_, hc.active_of_wanted⟩
  exact ⟨hc.flying_of_active ha, hc.ready_of_active ha⟩

theorem departure_active :
    (trial {} (smoothly departure)).2.Reachable ∧
    (trial {} (smoothly departure)).2.counting = true ∧
    (trial {} (smoothly departure)).2.watch.hasActive = true ∧
    (trial {} (smoothly departure)).2.state.phase = .playing ∧
    (trial {} (smoothly departure)).2.settling = none := by
  have h : (trial {} (smoothly departure)).2.Reachable := reachable_trial _ _
  obtain ⟨hcounting, hactive, -⟩ := h.active_flown
  have hc : (trial {} (smoothly departure)).2.counting = true := by decide
  exact ⟨h, hc, hcounting hc, by decide, (hactive (hcounting hc)).2.1⟩

end Engine
end Sortie.Run
