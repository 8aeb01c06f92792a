import Sortie.Proofs.Run.Camera

/-!
# Failed activations

A failed activation should leave nothing of itself or of an earlier attempt behind.  What goes wrong
while an attempt is under way clears everything away, but an attempt that is not even begun, since
the aircraft is not ready or must not take off, leaves an earlier one as it is
(`Reachable.clear_iff`).

What is left decides what comes next.  `Registers.IsPending` says that an attempt is put off that
notices alone can have carried out: then some notices bring about an activation
(`exists_activates_of_pending`).  Otherwise no activation is sent until the pilot asks again
(`Sequel.not_activates`).  Both together are `Reachable.after_failure`.
-/

namespace Sortie.Run

/-- The aircraft tells something. -/
def Input.isNotice : Input → Bool
  | .notice _ => true
  | .wish _ | .tick | .poll | .timeout _ => false

namespace Registers

/-- An attempt is put off that the aircraft alone can have carried out. -/
def IsPending (r : Registers) : Prop :=
  r.settling.isSome = true ∨ (r.cleanUp.isSome = true ∧ r.intent = .playing)

variable {w : Outlook} {f : Facts} {r r' : Registers} {i : Input}

/-- Only the pilot gets something put off. -/
theorem Move.not_pending (hm : Move w f r i r') (ha : ∀ restart, ¬ r.Asked i restart)
    (h : ¬ r.IsPending) : ¬ r'.IsPending := by
  have hs : r.settling = none := Option.not_isSome_iff_eq_none.mp fun hs => h (.inl hs)
  cases hm with
  | stay | rest | goHome | empty => exact h
  | unready hask | attempt hask | defer hask => exact absurd hask (ha _)
  | settled _ hsome | unsettled hsome | exhausted hsome =>
    rw [hs] at hsome
    cases hsome
  | cleaned hc hi | canceled hc hi => exact absurd (.inr ⟨by simp [hc], hi⟩) h
  | drop | hold | pause => simp [IsPending, Registers.hold, hs]
  | load | unload | quiet | stop | catchUp | lose | finish | start | abandon | timeout =>
    simp [IsPending, Registers.unload, Registers.quiet, Registers.finish, Registers.start, see,
      enter]

end Registers

open Registers (Outcome)

namespace Engine

variable {e e' : Engine} {w : Outlook} {i : Input} {log : List Effect} {f : Flight}

/-! ### What is put off -/

theorem exists_sent_activates_iff (hs : e.step w i = .ok (e', log)) :
    (∃ o ∈ sent log, o.activates = true) ↔ ∃ c, e.cause? i = some c ∧ e.Activates w c := by
  rw [← exists_activates_iff hs, ← map_order_dispatches e.state]
  constructor
  · rintro ⟨o, ho, ha⟩
    obtain ⟨d, hd, rfl⟩ := List.mem_map.mp ho
    exact ⟨d, hd, ha⟩
  · rintro ⟨d, hd, ha⟩
    exact ⟨d.order, List.mem_map_of_mem hd, ha⟩

theorem not_activates_of_not_pending {t : Turn}
    (hs : e.step t.outlook t.input = .ok (e', t.effects)) (ha : t.asks = false) (h : ¬ e.registers.IsPending) :
    ∀ o ∈ sent t.effects, o.activates = false := by
  intro o ho
  refine Bool.not_eq_true _ ▸ fun hn => ?_
  obtain ⟨c, hc, -⟩ := (exists_sent_activates_iff hs).mp ⟨o, ho, hn⟩
  obtain ⟨w, i, log⟩ := t
  cases due_of_cause? hc with
  | play | unpause => cases ha
  | settled _ hsome => exact h (.inl (by simp [registers, hsome]))
  | cleaned hp hi => exact h (.inr ⟨by simp [registers, hp], hi⟩)

/-- Where take-off is allowed, an attempt begins with an activation or with media to be deleted. -/
theorem activates_or_cleanUp (hf : e.flight = some f) (hw : w.mayTakeOff = true) (c : Cause) :
    e.Activates w c ∨
      ∃ missionId resource, e.attempt? w c = some (.cleanUp missionId resource) := by
  cases c with
  | resume => exact .inl ⟨_, by rw [attempt?, hf]; rfl⟩
  | cleanedUp item => exact .inl ⟨_, by rw [attempt?, hf]; rfl⟩
  | launch =>
    show (∃ a, e.launchOrder? w = some (.activate a)) ∨
      ∃ missionId resource, e.launchOrder? w = some (.cleanUp missionId resource)
    unfold launchOrder?
    rw [hf, hw]
    dsimp only [Option.bind_some]
    rw [if_neg (by simp)]
    split
    · exact .inl ⟨_, rfl⟩
    · cases f.record.recovery.filter (· ≠ "") with
      | some resource => exact .inr ⟨_, _, rfl⟩
      | none => exact .inl ⟨_, rfl⟩

/-- A camera that has settled has what waits for it carried out. -/
theorem outcome_onCamera {s : Settling} (hf : e.flight = some f) (hs : e.settling = some s) :
    Outcome w { e.registers with settling := none } (e.attempt? w s.cause)
      (e.onCamera w .ready).registers := by
  let d : Engine := { e with facts := { e.facts with camera := .ready }, settling := none }
  have hd : e.onCamera w .ready = d.launchOrResume w s.restart := by
    unfold onCamera poll
    simp [hs, Camera.isSettled, Camera.ready, d]
  have ha : d.attempt? w s.cause = e.attempt? w s.cause := by
    unfold attempt? launchOrder?
    rfl
  rw [hd, ← ha]
  exact outcome_launchOrResume (e := d) hf s.restart

/-- What waits for the camera is activated once it has settled, or waits for old media then. -/
theorem Reachable.activates_or_cleanUp_of_settling (h : e.Reachable) {s : Settling}
    (hsome : e.settling = some s) :
    ∃ e' log, e.step {} (.notice (.camera .ready)) = .ok (e', log) ∧
      ((∃ o ∈ sent log, o.activates = true) ∨ ∃ p, e'.cleanUp = some p ∧ e'.intent = .playing) := by
  have hs : e.step {} (.notice (.camera .ready)) = _ := step_of_handle rfl
  have hc : e.cause? (.notice (.camera .ready)) = some s.cause :=
    cause?_eq_some_iff.mpr (.settled rfl hsome rfl)
  obtain ⟨f, hf⟩ := flight_of_cause? h.coherent hc
  refine ⟨_, _, hs, ?_⟩
  rcases activates_or_cleanUp (w := {}) hf rfl s.cause with ha | ⟨missionId, resource, ha⟩
  · exact .inl ((exists_sent_activates_iff hs).mpr ⟨_, hc, ha⟩)
  · have ho := outcome_onCamera (e := { e with log := [] }) (w := {}) hf hsome
    have ha : ({ e with log := [] } : Engine).attempt? {} s.cause =
      some (.cleanUp missionId resource) := ha
    rw [ha] at ho
    generalize hr : (({ e with log := [] } : Engine).onCamera {} .ready).registers = r at ho
    cases ho with
    | canceled hw => cases hw
    | cleaning item =>
      exact .inr ⟨_, congrArg Registers.cleanUp hr, congrArg Registers.intent hr⟩

/-- What waits for old media to be deleted is activated once they are. -/
theorem Reachable.activates_of_cleanUp (h : e.Reachable) {p : PendingCleanUp}
    (hp : e.cleanUp = some p) (hi : e.intent = .playing) :
    ∃ e' log, e.step {} (.notice (.cleanedUp p.missionId .done)) = .ok (e', log) ∧
      ∃ o ∈ sent log, o.activates = true := by
  have hs : e.step {} (.notice (.cleanedUp p.missionId .done)) = _ := step_of_handle rfl
  have hc := cause?_eq_some_iff.mpr (Due.cleaned hp hi)
  obtain ⟨f, hf⟩ := flight_of_cause? h.coherent hc
  refine ⟨_, _, hs, (exists_sent_activates_iff hs).mpr ⟨_, hc, ?_⟩⟩
  exact ⟨f.activation p.startItem true, by rw [attempt?, hf]; rfl⟩

/-- **What is put off can be carried out by notices alone.** -/
theorem Reachable.exists_activates_of_pending (h : e.Reachable) (hp : e.registers.IsPending) :
    ∃ ts e', Sequel e ts e' ∧ (∀ t ∈ ts, t.input.isNotice = true) ∧
      ∃ t ∈ ts, ∃ o ∈ sent t.effects, o.activates = true := by
  have hcleaned {e₁ : Engine} {ts : List Turn} {p : PendingCleanUp} (hsequel : Sequel e ts e₁)
      (hts : ∀ t ∈ ts, t.input.isNotice = true) (hp : e₁.cleanUp = some p)
      (hi : e₁.intent = .playing) :
      ∃ ts e', Sequel e ts e' ∧ (∀ t ∈ ts, t.input.isNotice = true) ∧
        ∃ t ∈ ts, ∃ o ∈ sent t.effects, o.activates = true := by
    obtain ⟨e₂, log, hs, hsent⟩ := (hsequel.reachable h).activates_of_cleanUp hp hi
    refine ⟨_, _, hsequel.turn (t := ⟨{}, .notice (.cleanedUp p.missionId .done), log⟩) hs, ?_, ?_⟩
    · exact List.forall_mem_cons.mpr ⟨rfl, hts⟩
    · exact ⟨_, List.mem_cons_self, hsent⟩
  rcases hp with hsettling | ⟨hcleanUp, hi⟩
  · obtain ⟨s, hsome⟩ := Option.isSome_iff_exists.mp hsettling
    obtain ⟨e₁, log, hs, hnext⟩ := h.activates_or_cleanUp_of_settling hsome
    have hsequel := Sequel.here.turn (t := ⟨{}, .notice (.camera .ready), log⟩) hs
    have hnotice : ∀ t ∈ [(⟨{}, .notice (.camera .ready), log⟩ : Turn)],
        t.input.isNotice = true := by
      simp [Input.isNotice]
    rcases hnext with hsent | ⟨p, hp, hi⟩
    · exact ⟨_, _, hsequel, hnotice, _, List.mem_cons_self, hsent⟩
    · exact hcleaned hsequel hnotice hp hi
  · obtain ⟨p, hsome⟩ := Option.isSome_iff_exists.mp hcleanUp
    exact hcleaned .here (fun t ht => absurd ht List.not_mem_nil) hsome hi

end Engine

open Engine

/-- **What is not put off is not carried out before the pilot asks again.** -/
theorem Sequel.not_activates {e e' : Engine} {ts : List Turn} (h : Sequel e ts e')
    (he : e.Reachable) (hp : ¬ e.registers.IsPending) (ha : ∀ t ∈ ts, t.asks = false) :
    ∀ t ∈ ts, ∀ o ∈ sent t.effects, o.activates = false := by
  have hkeep := h.keep (P := fun e => e.Reachable ∧ ¬ e.registers.IsPending)
    (Q := fun t => t.asks = false) ?_ ⟨he, hp⟩ ha
  · intro t ht
    obtain ⟨e₁, e₂, ⟨-, h₁⟩, hs⟩ := hkeep.2 t ht
    exact not_activates_of_not_pending hs (ha t ht) h₁
  · rintro e₁ e₂ t ⟨hr, h₁⟩ hask hs
    exact ⟨hr.step hs, (move_step hr.coherent.backed hs).not_pending
      (fun _ => Registers.not_asked hask) h₁⟩

/-! ### What a failure clears away -/

/-- Whether nothing of an attempt is left after a failure, by what there was before.  What goes
wrong in an attempt clears all away, while an attempt that is not begun leaves an earlier one as it
is. -/
def Failure.Clears (r : Registers) : Failure → Prop
  | noMission => r.watch = .none
  | interfaceNotReady => r.watch = .none ∧ r.settling = none ∧ r.cleanUp = none
  | cannotTakeOff => r.cleanUp = none
  | rejected _ | timeout | cleanUpCanceled | cameraNotSettled => True

namespace Registers

variable {w : Outlook} {g : Facts} {r r' : Registers} {i : Input} {o : Option Order} {f : Failure}

/-- An attempt that fails leaves old media that an earlier one waits for, if it is not begun. -/
theorem Outcome.clear_iff {d : Registers} (ho : Outcome w r o r') (hs : r.settling = none)
    (hd : d.cleanUp = r.cleanUp) (hf : r'.phase = .failed f) (hn : r.phase ≠ .failed f) :
    (r'.watch = .none ∧ r'.settling = none ∧ r'.cleanUp = none) ↔ f.Clears d := by
  cases ho with
  | grounded =>
    cases hf
    simp [Failure.Clears, see, enter, hs, hd]
  | sent | cleaning => exact absurd hf hn
  | rejected | canceled =>
    cases hf
    simp [Failure.Clears, fail]

theorem Move.clear_iff (hm : Move w g r i r') (hr : r.Coherent)
    (hbusy : i.looks = false → r.settling.isSome = true → g.camera.isSettled = false)
    (hf : r'.phase = .failed f) (hn : r.phase ≠ .failed f) :
    (r'.watch = .none ∧ r'.settling = none ∧ r'.cleanUp = none) ↔ f.Clears r := by
  cases hm with
  | stay | defer | pause | quiet | rest | unsettled | drop => exact absurd hf hn
  | load | unload | stop | catchUp | lose | hold | finish | start | abandon | goHome => cases hf
  | empty hl =>
    obtain ⟨-, hs, hc, -⟩ := hr.of_unloaded hl
    cases hf
    simp [Failure.Clears, enter, hs, hc]
  | unready =>
    cases hf
    rfl
  | attempt ha _ hcamera ho =>
    have hlooks : i.looks = false := by cases ha <;> rfl
    have hs : r.settling = none := by
      refine Option.not_isSome_iff_eq_none.mp fun hsome => ?_
      rw [hbusy hlooks hsome] at hcamera
      cases hcamera
    exact ho.clear_iff hs rfl hf hn
  | settled _ _ _ ho => exact ho.clear_iff rfl rfl hf hn
  | cleaned _ _ ho =>
    cases ho with
    | sent => exact absurd hf hn
    | rejected =>
      cases hf
      simp [Failure.Clears, fail]
  | exhausted | canceled | timeout =>
    cases hf
    simp [Failure.Clears, fail, see, enter]

end Registers

namespace Engine

variable {e e' : Engine} {w : Outlook} {i : Input} {log : List Effect} {f : Failure}

theorem Reachable.clear_iff (h : e.Reachable) (hs : e.step w i = .ok (e', log))
    (hf : e'.state = .failed f) (hn : e.state ≠ .failed f) :
    (e'.watch = .none ∧ e'.settling = none ∧ e'.cleanUp = none) ↔ f.Clears e.registers := by
  have hm := move_step h.coherent.backed hs
  have hf : e'.registers.phase = .failed f := State.eq_failed_iff.mp hf
  have hn : e.registers.phase ≠ .failed f := fun hp => hn (State.eq_failed_iff.mpr hp)
  rw [Watch.eq_none_iff]
  refine hm.clear_iff h.coherent (fun hi hsome => ?_) hf hn
  rw [camera_learn_of_not_looks hi]
  exact h.busy_of_settling hsome

/-- **What a failed activation leaves behind, and what comes of it.**  Whether all is cleared away
hangs on the failure and on what was there before.  If nothing is put off any more, no activation is
sent until the pilot asks again; otherwise some notices are enough for one. -/
theorem Reachable.after_failure (h : e.Reachable) (hs : e.step w i = .ok (e', log))
    (hf : e'.state = .failed f) (hn : e.state ≠ .failed f) :
    ((e'.watch = .none ∧ e'.settling = none ∧ e'.cleanUp = none) ↔ f.Clears e.registers) ∧
    (¬ e'.registers.IsPending → ∀ ts e₂, Sequel e' ts e₂ → (∀ t ∈ ts, t.asks = false) →
      ∀ t ∈ ts, ∀ o ∈ sent t.effects, o.activates = false) ∧
    (e'.registers.IsPending → ∃ ts e₂, Sequel e' ts e₂ ∧
      (∀ t ∈ ts, t.input.isNotice = true) ∧
        ∃ t ∈ ts, ∃ o ∈ sent t.effects, o.activates = true) := by
  refine ⟨h.clear_iff hs hf hn, fun hp ts e₂ hsequel ha => ?_, fun hp => ?_⟩
  · exact hsequel.not_activates (h.step hs) hp ha
  · exact (h.step hs).exists_activates_of_pending hp

/-- The mission waits for the camera when the aircraft is not ready any more. -/
def unready : List Input :=
  [reportIdle, .notice (.connection true),
    .notice (.camera { present := true, configuring := true }), .wish (.setup sample []),
    .wish .play, .notice (.interface none)]

theorem exists_step_unready :
    ∃ e' log, (trial {} (smoothly unready)).2.step {} (.wish .play) = .ok (e', log) ∧
      e'.state = .failed .interfaceNotReady ∧ e'.settling.isSome = true ∧
      (trial {} (smoothly unready)).2.state ≠ .failed .interfaceNotReady :=
  ⟨_, _, step_of_handle rfl, State.eq_failed_iff.mpr (by decide), by decide,
    fun hp => absurd (State.eq_failed_iff.mp hp) (by decide)⟩

theorem activates_unready :
    ∃ e' log, (trial {} (smoothly unready)).2.step {} (.wish .play) = .ok (e', log) ∧
      e'.state = .failed .interfaceNotReady ∧ e'.settling.isSome = true ∧
      ∃ ts e₂, Sequel e' ts e₂ ∧ (∀ t ∈ ts, t.input.isNotice = true) ∧
        ∃ t ∈ ts, ∃ o ∈ sent t.effects, o.activates = true := by
  obtain ⟨e', log, hs, hf, hsettling, hn⟩ := exists_step_unready
  have hafter := (reachable_trial {} (smoothly unready)).after_failure hs hf hn
  exact ⟨e', log, hs, hf, hsettling, hafter.2.2 (.inl hsettling)⟩

/-- An activation can be sent after a failure although the pilot has not asked again. -/
theorem not_forall_clear_after_failure :
    ¬ ∀ e w i e' log f, Reachable e → e.step w i = .ok (e', log) → e'.state = .failed f →
      e.state ≠ .failed f → (e'.watch = .none ∧ e'.settling = none ∧ e'.cleanUp = none) ∧
        ∀ ts e₂, Sequel e' ts e₂ → (∀ t ∈ ts, t.asks = false) →
          ∀ t ∈ ts, ∀ o ∈ sent t.effects, o.activates = false := by
  intro hall
  obtain ⟨e', log, hs, hf, hsettling, hn⟩ := exists_step_unready
  have hreachable := reachable_trial {} (smoothly unready)
  obtain ⟨ts, e₂, hsequel, hnotice, t, ht, o, ho, ha⟩ :=
    (hreachable.step hs).exists_activates_of_pending (.inl hsettling)
  have hasks : ∀ t ∈ ts, t.asks = false := by
    intro u hu
    obtain ⟨w, i, log⟩ := u
    have hi : i.isNotice = true := hnotice _ hu
    cases i with
    | notice n => rfl
    | wish | tick | poll | timeout => cases hi
  have hno := (hall _ _ _ _ _ _ hreachable hs hf hn).2 ts e₂ hsequel hasks t ht o ho
  rw [ha] at hno
  cases hno

end Engine

end Sortie.Run
