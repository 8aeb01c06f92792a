import Sortie.Proofs.Run.Coherence

/-!
# Unloading a mission

A reset, and the setup of another mission, forgets what the pilot wants, stops counting and drops
what is put off.  The watch is taken off only a mission that is run, though it can wait for one that
is not: for a mission that has been played but not yet taken up.  `Engine.Strands` says so, and then
the watch goes on waiting for a mission that is not loaded any more.

If a mission of the same name is loaded next, it is taken for the one that is waited for, and a
timeout makes it fail though nobody has asked for it to be flown.  In every other case a mission
that is only loaded is safe from timeouts (`Reachable.unloaded`).
-/

namespace Sortie.Run

/-- A mission is loaded. -/
def Turn.loads (t : Turn) : Bool :=
  match t.input with
  | .wish (.setup ..) => true
  | _ => false

namespace Registers

variable {w : Outlook} {f : Facts} {r r' : Registers} {i : Input} {o : Option Order}
  {missionId : String}

theorem Outcome.watch_eq (h : Outcome w r o r') (hw : r'.watch = .activating missionId) :
    r.watch = .activating missionId := by
  cases h with
  | sent | cleaning => exact hw
  | grounded | rejected | canceled => cases hw

theorem Outcome.loaded_eq (h : Outcome w r o r') : r'.loaded = r.loaded := by
  cases h <;> rfl

/-- The watch waits for a mission only if the pilot asks. -/
theorem Move.watch_eq (hm : Move w f r i r') (ha : ∀ restart, ¬ r.Asked i restart)
    (hw : r'.watch = .activating missionId) : r.watch = .activating missionId := by
  have hunload (hw : r.unload.watch = .activating missionId) : r.watch = .activating missionId := by
    unfold Registers.unload at hw
    dsimp only at hw
    split at hw
    · cases hw
    · exact hw
  cases hm with
  | stay | empty | quiet | rest | goHome | unsettled | drop => exact hw
  | load | unload | abandon => exact hunload hw
  | unready hask | attempt hask | defer hask => exact absurd hask (ha _)
  | settled _ _ _ ho => exact ho.watch_eq hw
  | cleaned _ _ ho => exact ho.watch_eq hw
  | pause | stop | catchUp | lose | hold | finish | start | exhausted | canceled | timeout =>
    cases hw

/-- A mission is loaded only by a setup. -/
theorem Move.loaded_eq {t : Turn} (hm : Move w f r t.input r') (hl : t.loads = false) :
    r'.loaded = r.loaded ∨ r'.loaded = none := by
  obtain ⟨w, i, log⟩ := t
  cases hm with
  | load => cases hl
  | unload | abandon => exact .inr rfl
  | attempt _ _ _ ho | settled _ _ _ ho => exact .inl ho.loaded_eq
  | cleaned _ _ ho => exact .inl ho.loaded_eq
  | stay | empty | unready | defer | pause | quiet | stop | catchUp | lose | rest | hold | finish
  | start | goHome | unsettled | exhausted | canceled | drop | timeout => exact .inl rfl

end Registers

namespace Engine

variable {e e' : Engine} {w : Outlook} {missionId : String}

/-- Nothing is wanted, counted or put off. -/
structure IsAtRest (e : Engine) : Prop where
  intent : e.intent = .none
  counting : e.counting = false
  settling : e.settling = none
  cleanUp : e.cleanUp = none

/-- The watch waits for a mission that is not run.  It goes on waiting when the mission is
unloaded. -/
def Strands (e : Engine) (missionId : String) : Prop :=
  ¬ e.state.phase.IsRunning ∧ e.watch.activatingId? = some missionId

theorem Reachable.log_eq (h : e.Reachable) : e.log = [] := by
  refine Reachable.induction (P := fun e => e.log = []) (fun _ => rfl) ?_ h
  intro e e' w i log _ _ hs
  obtain ⟨e₁, -, rfl, -⟩ := handle_of_step hs
  rfl

/-! ### Timeouts -/

/-- A timeout of a mission that is not waited for does nothing. -/
theorem Reachable.step_timeout (h : e.Reachable) (w : Outlook)
    (hn : e.registers.loaded = some missionId → e.registers.watch ≠ .activating missionId) :
    e.step w (.timeout missionId) = .ok (e, []) := by
  have hlog : ({ e with log := [] } : Engine) = e := by rw [← h.log_eq]
  have ht : e.timeout w missionId = e := by
    unfold timeout
    refine if_neg fun ⟨hl, hw⟩ => hn hl ?_
    exact (Watch.activatingId?_eq_some_iff _ _).mp hw
  have hh : ({ e with log := [] } : Engine).handle w (.timeout missionId) = .ok e := by
    rw [hlog]
    exact congrArg Except.ok ht
  rw [step_of_handle hh, hlog, h.log_eq]

theorem phase_timeout (h : e.missionId? = some missionId ∧ e.watch.activatingId? = some missionId) :
    (e.timeout w missionId).registers.phase = .failed .timeout := by
  unfold timeout
  rw [if_pos h, registers_setState]
  rfl

/-- A timeout of the mission that is waited for stops it. -/
theorem exists_step_timeout (w : Outlook) (hl : e.registers.loaded = some missionId)
    (hw : e.registers.watch = .activating missionId) :
    ∃ e' log, e.step w (.timeout missionId) = .ok (e', log) ∧ sent log = [.stop] ∧
      e'.state = .failed .timeout := by
  have hs : e.step w (.timeout missionId) = _ := step_of_handle rfl
  have hcond : e.missionId? = some missionId ∧ e.watch.activatingId? = some missionId :=
    ⟨hl, (Watch.activatingId?_eq_some_iff _ _).mpr hw⟩
  refine ⟨_, _, hs, by rw [sent_step hs, orders_timeout, if_pos hcond], ?_⟩
  exact State.eq_failed_iff.mpr (phase_timeout (e := { e with log := [] }) hcond)

/-! ### Resets and setups -/

theorem strands_iff : e.Strands missionId ↔ e.registers.unload.watch = .activating missionId := by
  have hw : e.watch.activatingId? = some missionId ↔ e.registers.watch = .activating missionId :=
    Watch.activatingId?_eq_some_iff e.watch missionId
  unfold Strands Registers.unload
  rw [hw]
  show ¬ e.registers.phase.IsRunning ∧ _ ↔ _
  split
  · next hp => simp [hp]
  · next hp => simp [hp]

/-- The watch is taken off a mission unless it is left behind on it. -/
theorem Reachable.unload_watch_iff (h : e.Reachable) :
    e.registers.unload.watch = .none ↔ ∀ missionId, ¬ e.Strands missionId := by
  constructor
  · intro hw missionId hs
    rw [strands_iff, hw] at hs
    cases hs
  · intro hn
    cases hw : e.registers.unload.watch with
    | none => rfl
    | activating missionId => exact absurd (strands_iff.mpr hw) (hn missionId)
    | active =>
      -- An active mission is run, so that the watch is taken off it.
      rcases h.coherent.unload.flying_of_active hw with hp | hp <;> cases hp

/-- A mission that is only loaded is safe from timeouts unless it is taken for another one. -/
theorem Reachable.step_timeout_later {ts : List Turn} {e₂ : Engine} (he : e.Reachable)
    (h : Sequel e ts e₂) (hl : e.registers.loaded = some missionId)
    (hw : e.registers.watch ≠ .activating missionId)
    (hts : ∀ t ∈ ts, t.asks = false ∧ t.loads = false) (w : Outlook) (id : String) :
    e₂.step w (.timeout id) = .ok (e₂, []) := by
  let P (e : Engine) : Prop := e.Reachable ∧
    (e.registers.loaded = some missionId ∨ e.registers.loaded = none) ∧
    e.registers.watch ≠ .activating missionId
  have hstep {e₁ e₂ : Engine} {t : Turn} (hP : P e₁) (hQ : t.asks = false ∧ t.loads = false)
      (hs : e₁.step t.outlook t.input = .ok (e₂, t.effects)) : P e₂ := by
    obtain ⟨hr₁, hl₁, hw₁⟩ := hP
    have hm := move_step hr₁.coherent.backed hs
    refine ⟨hr₁.step hs, ?_, fun hn => hw₁ (hm.watch_eq (fun _ => Registers.not_asked hQ.1) hn)⟩
    rcases hm.loaded_eq hQ.2 with hm | hm
    · exact hm ▸ hl₁
    · exact .inr hm
  obtain ⟨hr₂, hl₂, hw₂⟩ := (h.keep hstep ⟨he, .inl hl, hw⟩ hts).1
  refine hr₂.step_timeout w fun hid hactivating => ?_
  rcases hl₂ with hl₂ | hl₂
  · obtain rfl : missionId = id := Option.some.inj (hl₂.symm.trans hid)
    exact hw₂ hactivating
  · cases hl₂.symm.trans hid

theorem isAtRest_of_registers {r : Registers} {p : Phase} {loaded : Option String}
    (h : e.registers = { r.unload with phase := p, loaded }) : e.IsAtRest where
  intent := congrArg Registers.intent h
  counting := congrArg Registers.counting h
  settling := congrArg Registers.settling h
  cleanUp := congrArg Registers.cleanUp h

theorem exists_step_reset (e : Engine) (w : Outlook) :
    ∃ e' log, e.step w (.wish .reset) = .ok (e', log) ∧ e'.registers = e.registers.unload :=
  ⟨_, _, step_of_handle rfl, registers_unload { e with log := [] }⟩

theorem exists_step_setup (e : Engine) (w : Outlook) (x : Execution) (s : Sequence) :
    ∃ e' log, e.step w (.wish (.setup x s)) = .ok (e', log) ∧
      e'.registers = { e.registers.unload with phase := .idle, loaded := some x.missionId } :=
  ⟨_, _, step_of_handle rfl, registers_setup { e with log := [] } x s⟩

/-- **What a reset, or the setup of another mission, leaves of a run.**  It leaves nothing but,
perhaps, the watch on a mission that was not run yet.  Then a timeout hits the next mission of that
name, and no timeout hits any other mission before it is asked for. -/
theorem Reachable.unloaded (h : e.Reachable) (w : Outlook) :
    (∃ e' log, e.step w (.wish .reset) = .ok (e', log) ∧ e'.state = .noMission ∧ e'.IsAtRest ∧
      (e'.watch = .none ↔ ∀ missionId, ¬ e.Strands missionId)) ∧
    ∀ x s, ∃ e' log, e.step w (.wish (.setup x s)) = .ok (e', log) ∧ e'.state.phase = .idle ∧
      e'.IsAtRest ∧ (e'.watch = .none ↔ ∀ missionId, ¬ e.Strands missionId) ∧
      (e.Strands x.missionId → ∀ w₂, ∃ e₂ log₂,
        e'.step w₂ (.timeout x.missionId) = .ok (e₂, log₂) ∧ sent log₂ = [.stop] ∧
          e₂.state = .failed .timeout) ∧
      (¬ e.Strands x.missionId → ∀ ts e₂, Sequel e' ts e₂ →
        (∀ t ∈ ts, t.asks = false ∧ t.loads = false) →
          ∀ w₂ id, e₂.step w₂ (.timeout id) = .ok (e₂, [])) := by
  constructor
  · obtain ⟨e', log, hs, hr⟩ := exists_step_reset e w
    have hp : e'.state.phase = .noMission := congrArg Registers.phase hr
    have hw : e'.watch.stage = e.registers.unload.watch := congrArg Registers.watch hr
    refine ⟨e', log, hs, State.eq_noMission_iff.mpr hp, isAtRest_of_registers hr, ?_⟩
    rw [Watch.eq_none_iff, ← h.unload_watch_iff, hw]
  · intro x s
    obtain ⟨e', log, hs, hr⟩ := exists_step_setup e w x s
    have hw : e'.watch.stage = e.registers.unload.watch := congrArg Registers.watch hr
    have hl : e'.registers.loaded = some x.missionId := congrArg Registers.loaded hr
    refine ⟨e', log, hs, congrArg Registers.phase hr, isAtRest_of_registers hr, ?_, ?_, ?_⟩
    · rw [Watch.eq_none_iff, ← h.unload_watch_iff, hw]
    · intro hstrands w₂
      exact exists_step_timeout w₂ hl (hw.trans (strands_iff.mp hstrands))
    · intro hn ts e₂ hsequel hts
      refine (h.step hs).step_timeout_later hsequel hl (fun hactivating => hn ?_) hts
      exact strands_iff.mpr (hw.symm.trans hactivating)

/-- The sample is played, and not yet taken up. -/
def outset : List Input :=
  preparation ++ [.wish .play]

theorem timeout_outset :
    ∃ e' log, (trial {} (smoothly outset)).2.step {} (.wish (.setup sample [])) = .ok (e', log) ∧
      e'.state.phase = .idle ∧ ∃ e₂ log₂, e'.step {} (.timeout "field") = .ok (e₂, log₂) ∧
        sent log₂ = [.stop] ∧ e₂.state = .failed .timeout := by
  obtain ⟨e', log, hs, hp, -, -, hstrands, -⟩ :=
    ((reachable_trial {} (smoothly outset)).unloaded {}).2 sample []
  exact ⟨e', log, hs, hp, hstrands ⟨by decide, by decide⟩ {}⟩

/-- A reset can leave the watch waiting. -/
theorem not_forall_watch_of_reset :
    ¬ ∀ e w e' log, Reachable e → e.step w (.wish .reset) = .ok (e', log) →
      e'.state = .noMission ∧ e'.watch = .none ∧ e'.IsAtRest := by
  intro hall
  have hreachable := reachable_trial {} (smoothly outset)
  obtain ⟨e', log, hs, hr⟩ := exists_step_reset (trial {} (smoothly outset)).2 {}
  obtain ⟨-, hw, -⟩ := hall _ _ _ _ hreachable hs
  have hn : e'.watch.stage = .activating "field" :=
    (congrArg Registers.watch hr).trans (strands_iff.mp ⟨by decide, by decide⟩)
  rw [hw] at hn
  cases hn

end Engine

end Sortie.Run
