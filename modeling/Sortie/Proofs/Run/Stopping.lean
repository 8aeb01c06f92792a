import Sortie.Proofs.Run.Activations

/-!
# Forced stops

A forced stop ends a run at once, whatever the state of the run: the aircraft is told to stop, and
nothing is counted, watched or put off any more.  What the pilot wants is kept, so that the first
report of a mission that is still flown has the aircraft told again and the mission unloaded.

`Registers.Over` lists the registers that a forced stop and the inputs after it can lead to.  Until
the pilot does something, no move leads out of them (`Over.move`), and the only order given in them
is to stop (`sent_of_over`).
-/

namespace Sortie.Run

/-- The pilot does something. -/
def Input.isWish : Input → Bool
  | .wish _ => true
  | .notice _ | .tick | .poll | .timeout _ => false

theorem Input.exists_report {i : Input} (h : i.reportsActive = true) :
    ∃ report : Option Report, i = .notice (.interface report) ∧
      report.any (·.state = .active) = true := by
  cases i with
  | wish | tick | poll | timeout => cases h
  | notice n =>
    cases n with
    | returnHome | connection | landed | position | camera | cleanedUp => cases h
    | interface report => exact ⟨report, rfl, h⟩

namespace Registers

/-- The run has been stopped, and the aircraft has not been reported to fly on since, or it has and
the mission is unloaded. -/
inductive Over : Registers → Prop
  | ended (missionId : String) :
      Over ⟨.ended, .stopped, .none, false, none, none, some missionId⟩
  | unloaded : Over ⟨.noMission, .none, .none, false, none, none, none⟩

variable {w : Outlook} {f : Facts} {r r' : Registers} {i : Input}

theorem Over.unload (h : r.Over) : r.unload.Over := by
  cases h <;> exact .unloaded

theorem Over.ite_unload (h : r.Over) (b : Bool) : (if b then r.unload else r).Over := by
  split
  · exact h.unload
  · exact h

theorem Over.unload_unload (h : r.Over) : r.unload.unload = r.unload := by
  cases h <;> rfl

theorem Over.unload_eq (h : r.Over) (hi : r.intent ≠ .stopped) : r.unload = r := by
  cases h with
  | ended => exact absurd rfl hi
  | unloaded => rfl

theorem Over.deferred_eq (h : r.Over) : r.settling = none ∧ r.cleanUp = none := by
  cases h <;> exact ⟨rfl, rfl⟩

theorem Over.counting_eq (h : r.Over) : r.counting = false := by
  cases h <;> rfl

theorem Over.phase_eq (h : r.Over) : r.phase = .noMission ∨ r.phase = .ended := by
  cases h with
  | ended => exact .inr rfl
  | unloaded => exact .inl rfl

/-- Notices and clocks change nothing, but a mission that is still flown is unloaded. -/
theorem Over.move (h : r.Over) (hm : Move w f r i r') (hi : i.isWish = false) :
    r' = r ∨ (i.reportsActive = true ∧ r' = r.unload) := by
  cases hm with
  | stay => exact .inl rfl
  | load | unload | empty | pause | quiet | stop | catchUp | lose => cases hi
  | unready ha | attempt ha | defer ha => cases ha <;> cases hi
  | rest => cases h <;> exact .inl rfl
  | abandon _ _ ha => exact .inr ⟨ha, rfl⟩
  | hold _ hp | finish _ hp | goHome hp => cases h <;> simp [Phase.IsRunning, Phase.IsFlying] at hp
  | start hi => cases h <;> cases hi
  | settled _ hs | unsettled hs | exhausted hs => cases h <;> cases hs
  | cleaned hc | canceled hc | drop _ hc => cases h <;> cases hc
  | timeout _ hw => cases h <;> cases hw

end Registers

namespace Engine

variable {e e' : Engine} {w : Outlook} {i : Input} {log : List Effect}

/-! ### The stop -/

theorem exists_step_of_not_counting (h : e.counting = false) (w : Outlook) (i : Input) :
    ∃ e' log, e.step w i = .ok (e', log) := by
  cases i with
  | wish | notice | poll | timeout => exact ⟨_, _, step_of_handle rfl⟩
  | tick =>
    have ht : ({ e with log := [] } : Engine).tick = .ok { e with log := [] } := by
      unfold tick
      split
      · rfl
      · rw [if_neg (by simp [h])]
        rfl
    exact ⟨_, _, step_of_handle ht⟩

theorem registers_stop_forced {f : Flight} (hf : e.flight = some f) (w : Outlook) :
    (e.stop w true).registers = ({ e.registers with intent := .stopped } : Registers).finish := by
  unfold stop
  dsimp only
  split
  · next hn =>
    rw [hf] at hn
    cases hn
  · rw [if_neg (by simp)]
    exact registers_finish (e := ({ e with
      counting := false, settling := none, cleanUp := none, intent := .stopped } : Engine).order w
        .stop) hf

/-- A forced stop ends the run, and tells the aircraft once. -/
theorem exists_step_stop {f : Flight} (hf : e.flight = some f) (w : Outlook) :
    ∃ e' log, e.step w (.wish (.stop true)) = .ok (e', log) ∧ sent log = [.stop] ∧
      e'.registers = ⟨.ended, .stopped, .none, false, none, none, some f.record.missionId⟩ := by
  have hs : e.step w (.wish (.stop true)) = _ := step_of_handle rfl
  refine ⟨_, _, hs, by rw [sent_step hs, orders_stop, if_pos (by rw [hf]; rfl)], ?_⟩
  have hr : (({ e with log := [] } : Engine).stop w true).registers
      = ({ e.registers with intent := .stopped } : Registers).finish :=
    registers_stop_forced (e := { e with log := [] }) hf w
  refine hr.trans ?_
  unfold Registers.finish
  rw [loaded_eq_of_flight hf]

/-! ### After the stop -/

theorem correction_of_over (h : e.registers.Over) :
    e.correction = if e.state.phase = .ended then [.stop] else [] := by
  generalize hr : e.registers = r at h
  have hp : e.state.phase = r.phase := congrArg Registers.phase hr
  have hi : e.intent = r.intent := congrArg Registers.intent hr
  unfold correction
  rw [hp, hi]
  cases h <;> rfl

theorem directOrders_of_over (h : e.registers.Over) (hi : i.isWish = false) :
    ∀ o ∈ e.directOrders i, o = .stop := by
  intro o ho
  have hcorrection : ∀ o ∈ e.correction, o = .stop := by
    rw [correction_of_over h]
    split <;> simp
  cases i with
  | wish => cases hi
  | tick | poll => cases ho
  | timeout =>
    simp only [directOrders, List.mem_ite_nil_right, List.mem_singleton] at ho
    exact ho.2
  | notice n =>
    cases n with
    | interface report =>
      simp only [directOrders, List.mem_ite_nil_right] at ho
      exact hcorrection o ho.2
    | returnHome =>
      simp only [directOrders, List.mem_ite_nil_right, List.mem_singleton] at ho
      exact ho.2
    | connection | landed | position | camera | cleanedUp => cases ho

/-- After the stop the aircraft is told nothing but to stop. -/
theorem sent_of_over (h : e.registers.Over) (hs : e.step w i = .ok (e', log))
    (hi : i.isWish = false) : ∀ o ∈ sent log, o = .stop := by
  obtain ⟨hsettling, hcleanUp⟩ : e.settling = none ∧ e.cleanUp = none := h.deferred_eq
  have hcause : e.cause? i = none := by
    cases hc : e.cause? i with
    | none => rfl
    | some c =>
      cases due_of_cause? hc with
      | play | unpause => cases hi
      | settled _ hsome => cases hsettling.symm.trans hsome
      | cleaned hsome => cases hcleanUp.symm.trans hsome
  rw [sent_step hs, orders, hcause]
  intro o ho
  exact directOrders_of_over h hi o (by simpa using ho)

/-- A mission that is still flown is unloaded. -/
theorem registers_onActive_of_over (h : e.registers.Over) :
    (e.onActive w).registers = e.registers.unload := by
  have hp : e.state.phase = .noMission ∨ e.state.phase = .ended := h.phase_eq
  unfold onActive
  cases hs : e.state with
  | noMission | ended =>
    dsimp only
    split
    · exact registers_unload (e.order w .stop)
    · next hi => exact (h.unload_eq hi).symm
  | idle | failed | playing | returning | paused =>
    rw [hs] at hp
    rcases hp with hp | hp <;> cases hp

theorem registers_report_of_over (h : e.registers.Over)
    (hs : e.step w i = .ok (e', log)) (ha : i.reportsActive = true) :
    e'.registers = e.registers.unload := by
  obtain ⟨report, rfl, hactive⟩ := Input.exists_report ha
  obtain ⟨e₁, hh, rfl, -⟩ := handle_of_step hs
  cases hh
  let d : Engine := ({ e with log := [] } : Engine).takeIn report
  have hd : d.registers = e.registers := registers_takeIn { e with log := [] } report
  have hon : (d.onActive w).registers = e.registers.unload := by
    rw [registers_onActive_of_over (hd ▸ h), hd]
  show (({ e with log := [] } : Engine).onInterface w report).registers = e.registers.unload
  rw [onInterface_eq, if_pos hactive]
  exact hon

theorem registers_of_over (hr : e.Reachable) (h : e.registers.Over)
    (hs : e.step w i = .ok (e', log)) (hi : i.isWish = false) :
    e'.registers = if i.reportsActive then e.registers.unload else e.registers := by
  have hm := h.move (move_step hr.coherent.backed hs) hi
  split
  · next ha => exact registers_report_of_over h hs ha
  · next ha => exact hm.resolve_right fun hn => ha hn.1

theorem over_step (hr : e.Reachable) (h : e.registers.Over) (hs : e.step w i = .ok (e', log))
    (hi : i.isWish = false) : e'.registers.Over := by
  rw [registers_of_over hr h hs hi]
  exact h.ite_unload _

theorem sent_report_of_over (h : e.registers.Over) (hs : e.step w i = .ok (e', log))
    (hp : e.state.phase = .ended) (ha : i.reportsActive = true) : sent log = [.stop] := by
  obtain ⟨report, rfl, hactive⟩ := Input.exists_report ha
  rw [sent_step hs, orders_interface, if_pos hactive, correction_of_over h, if_pos hp]

/-- The next step is made, and a report of a mission that is still flown unloads it. -/
theorem exists_step_of_over (h : e.registers.Over) (w : Outlook) (i : Input) :
    ∃ e' log, e.step w i = .ok (e', log) ∧
      (e.state.phase = .ended → i.reportsActive = true →
        sent log = [.stop] ∧ e'.state = .noMission ∧ e'.flight = none) := by
  obtain ⟨e', log, hs⟩ := exists_step_of_not_counting h.counting_eq w i
  refine ⟨e', log, hs, fun hp ha => ⟨sent_report_of_over h hs hp ha, ?_, ?_⟩⟩
  · have hr := congrArg Registers.phase (registers_report_of_over h hs ha)
    exact State.eq_noMission_iff.mpr hr
  · have hr := congrArg Registers.loaded (registers_report_of_over h hs ha)
    exact (flight_eq_none_iff e').mpr hr

end Engine

open Engine

/-- What is left of the run hangs only on whether the aircraft has reported to fly on. -/
theorem Sequel.registers_of_over {e e' : Engine} {ts : List Turn} (h : Sequel e ts e')
    (hr : e.Reachable) (ho : e.registers.Over) (hts : ∀ t ∈ ts, t.input.isWish = false) :
    e'.registers =
      if ts.any (·.input.reportsActive) then e.registers.unload else e.registers := by
  induction h with
  | here => rfl
  | @turn ts e₁ e₂ t past now ih =>
    have ih := ih fun u hu => hts u (List.mem_cons_of_mem t hu)
    have h₁ : e₁.registers.Over := by
      rw [ih]
      exact ho.ite_unload _
    rw [Engine.registers_of_over (past.reachable hr) h₁ now (hts t List.mem_cons_self), ih,
      List.any_cons]
    cases t.input.reportsActive <;> cases ts.any (·.input.reportsActive) <;>
      simp [ho.unload_unload]

/-- All that is left to be told is to stop. -/
theorem Sequel.sent_of_over {e e' : Engine} {ts : List Turn} (h : Sequel e ts e')
    (hr : e.Reachable) (ho : e.registers.Over) (hts : ∀ t ∈ ts, t.input.isWish = false) :
    ∀ t ∈ ts, ∀ o ∈ sent t.effects, o = .stop := by
  have hstep {e₁ e₂ : Engine} {t : Turn} (h₁ : e₁.Reachable ∧ e₁.registers.Over)
      (ht : t.input.isWish = false) (hs : e₁.step t.outlook t.input = .ok (e₂, t.effects)) :
      e₂.Reachable ∧ e₂.registers.Over :=
    ⟨h₁.1.step hs, over_step h₁.1 h₁.2 hs ht⟩
  intro t ht
  obtain ⟨e₁, e₂, ⟨-, h₁⟩, hs⟩ := (h.keep hstep ⟨hr, ho⟩ hts).2 t ht
  exact Engine.sent_of_over h₁ hs (hts t ht)

/-- **A forced stop ends the run at once, and it stays ended until the pilot does something.**
Whatever the aircraft tells and whichever clock ticks, no step fails, the aircraft is told nothing
but to stop, and the first report of a mission that is still flown unloads it. -/
theorem Engine.Reachable.stop_forced {e : Engine} (h : e.Reachable) (hf : e.flight.isSome = true)
    (w : Outlook) :
    ∃ e' log, e.step w (.wish (.stop true)) = .ok (e', log) ∧ sent log = [.stop] ∧
      e'.state.phase = .ended ∧ e'.watch = .none ∧ e'.counting = false ∧ e'.settling = none ∧
      e'.cleanUp = none ∧
      ∀ ts e₂, Sequel e' ts e₂ → (∀ t ∈ ts, t.input.isWish = false) →
        (∀ t ∈ ts, ∀ o ∈ sent t.effects, o = .stop) ∧
        e₂.state.phase = (if ts.any (·.input.reportsActive) then .noMission else .ended) ∧
        ∀ w₂ i, i.isWish = false → ∃ e₃ log₂, e₂.step w₂ i = .ok (e₃, log₂) ∧
          (ts.any (·.input.reportsActive) = false → i.reportsActive = true →
            sent log₂ = [.stop] ∧ e₃.state = .noMission ∧ e₃.flight = none) := by
  obtain ⟨f, hf⟩ := Option.isSome_iff_exists.mp hf
  obtain ⟨e', log, hs, hsent, hr⟩ := exists_step_stop hf w
  have ho : e'.registers.Over := hr ▸ .ended _
  refine ⟨e', log, hs, hsent, congrArg Registers.phase hr,
    Watch.eq_none_iff.mpr (congrArg Registers.watch hr), congrArg Registers.counting hr,
    congrArg Registers.settling hr, congrArg Registers.cleanUp hr, ?_⟩
  intro ts e₂ hsequel hts
  have hr₂ := hsequel.registers_of_over (h.step hs) ho hts
  have ho₂ : e₂.registers.Over := hr₂ ▸ ho.ite_unload _
  have hp₂ : e₂.state.phase =
      if ts.any (·.input.reportsActive) then .noMission else .ended := by
    refine (congrArg Registers.phase hr₂).trans ?_
    rw [hr]
    split <;> rfl
  refine ⟨hsequel.sent_of_over (h.step hs) ho hts, hp₂, fun w₂ i _ => ?_⟩
  obtain ⟨e₃, log₂, hs₃, hactive⟩ := exists_step_of_over ho₂ w₂ i
  exact ⟨e₃, log₂, hs₃, fun hn => hactive (by rw [hp₂, hn]; rfl)⟩

/-- The departed sample is stopped, and the aircraft reports to fly on. -/
theorem Engine.stop_departure :
    ∃ e' log, (trial {} (smoothly departure)).2.step {} (.wish (.stop true)) = .ok (e', log) ∧
      sent log = [.stop] ∧ e'.state.phase = .ended ∧
      ∃ e₃ log₂, e'.step {} reportActive = .ok (e₃, log₂) ∧ sent log₂ = [.stop] ∧
        e₃.state = .noMission := by
  obtain ⟨e', log, hs, hsent, hp, -, -, -, -, hlater⟩ :=
    (reachable_trial {} (smoothly departure)).stop_forced (by decide) {}
  obtain ⟨-, -, hnext⟩ := hlater [] e' .here (by simp)
  obtain ⟨e₃, log₂, hs₃, hactive⟩ := hnext {} reportActive rfl
  obtain ⟨hsent₂, hstate, -⟩ := hactive rfl rfl
  exact ⟨e', log, hs, hsent, hp, e₃, log₂, hs₃, hsent₂, hstate⟩

end Sortie.Run
