import Sortie.Proofs.Run.Activations

/-!
# Activations and the camera

An attempt is put off only while the camera is busy (`Reachable.busy_of_settling`): a report of a
settled camera carries it out at once, and nothing else is put off once the camera has settled.

A launch and a resumption look at the camera, but the start at an item after old media are deleted
does not.  So this start is the only activation that is sent to an aircraft with a busy camera, and
it is sent whatever the camera does (`History.activates_busy_iff`).
-/

namespace Sortie.Run

/-! ### The last report -/

/-- What a turn tells of the camera. -/
def Turn.camera? (t : Turn) : Option Camera :=
  match t.input with
  | .notice (.camera camera) => some camera
  | _ => none

/-- The camera as it was last reported.  An unknown camera is not present. -/
def lastCamera (ts : List Turn) : Camera :=
  (ts.findSome? Turn.camera?).getD {}

theorem camera_learn (f : Facts) (t : Turn) :
    (f.learn t.input).camera = t.camera?.getD f.camera := by
  obtain ⟨w, i, log⟩ := t
  cases i with
  | wish x => cases x <;> rfl
  | notice n => cases n <;> rfl
  | tick | poll | timeout => rfl

theorem camera_learn_of_not_looks {i : Input} (h : i.looks = false) (f : Facts) :
    (f.learn i).camera = f.camera := by
  cases i with
  | wish x => cases x <;> rfl
  | notice n =>
    cases n with
    | camera => cases h
    | interface | returnHome | connection | landed | position | cleanedUp => rfl
  | tick | poll | timeout => rfl

theorem History.camera_eq {settings : RunSettings} {ts : List Turn} {e : Engine}
    (h : History settings ts e) : e.facts.camera = lastCamera ts := by
  have hf := congrArg Facts.camera h.facts_eq
  exact hf.trans (foldr_learn camera_learn ts)

/-! ### What is put off -/

namespace Registers

variable {w : Outlook} {f : Facts} {r r' : Registers} {i : Input} {o : Option Order}

/-- An attempt puts nothing off until the camera has settled. -/
theorem Outcome.settling_isSome (h : Outcome w r o r') (hs : r'.settling.isSome = true) :
    r.settling.isSome = true := by
  cases h with
  | grounded | sent | cleaning => exact hs
  | rejected | canceled => cases hs

theorem Move.busy (hm : Move w f r i r')
    (h : i.looks = false → r.settling.isSome = true → f.camera.isSettled = false)
    (hs : r'.settling.isSome = true) : f.camera.isSettled = false := by
  cases hm with
  | stay hstay =>
    cases hi : i.looks with
    | false => exact h hi hs
    | true =>
      cases hc : f.camera.isSettled with
      | false => rfl
      | true =>
        rw [hstay hi hc] at hs
        cases hs
  | unready ha => cases ha <;> exact h rfl hs
  | attempt ha _ _ ho =>
    have hs : r.settling.isSome = true := ho.settling_isSome hs
    cases ha <;> exact h rfl hs
  | settled _ _ _ ho => cases ho.settling_isSome hs
  | cleaned _ _ ho => exact h rfl (ho.settling_isSome hs)
  | defer _ _ hc | unsettled _ hc => exact hc
  | empty | rest | hold | goHome | drop => exact h rfl hs
  | load | unload | pause | quiet | stop | catchUp | lose | finish | start | abandon | exhausted
  | canceled | timeout => cases hs

end Registers

namespace Engine

variable {e e' : Engine} {w : Outlook} {i : Input} {log : List Effect}

theorem camera_step (hs : e.step w i = .ok (e', log)) :
    e'.facts.camera = (e.facts.learn i).camera := by
  have hf := congrArg Facts.camera (facts_step hs)
  exact hf

/-- **While an attempt is put off, the camera is busy.** -/
theorem Reachable.busy_of_settling (h : e.Reachable) (hs : e.settling.isSome = true) :
    e.facts.camera.isSettled = false := by
  refine Reachable.induction
    (P := fun e => e.settling.isSome = true → e.facts.camera.isSettled = false) ?_ ?_ h hs
  · intro settings hn
    cases hn
  · intro e e' w i log he ih hstep hs
    rw [camera_step hstep]
    refine (move_step he.coherent.backed hstep).busy (fun hi hn => ?_) hs
    rw [camera_learn_of_not_looks hi]
    exact ih hn

end Engine

/-! ### With a busy camera -/

open Engine

/-- **With a busy camera an activation is sent exactly if the old media are deleted** that a wanted
mission waits for.  The camera counts as it was last reported, the present input included. -/
theorem History.activates_busy_iff {settings : RunSettings} {ts : List Turn} {e e' : Engine}
    {w : Outlook} {i : Input} {log : List Effect} (h : History settings ts e)
    (hs : e.step w i = .ok (e', log)) (hc : (lastCamera (⟨w, i, log⟩ :: ts)).isSettled = false) :
    (∃ d ∈ dispatches e.state log, d.order.activates = true) ↔
      ∃ p, e.cleanUp = some p ∧ e.intent = .playing ∧
        i = .notice (.cleanedUp p.missionId .done) := by
  have hr : e.registers.Coherent := Reachable.coherent ⟨settings, ts, h⟩
  have hbusy : (e.facts.learn i).camera.isSettled = false := by
    rw [← camera_step hs, (h.turn (t := ⟨w, i, log⟩) hs).camera_eq]
    exact hc
  rw [exists_activates_iff hs]
  constructor
  · rintro ⟨c, hcause, -⟩
    cases due_of_cause? hcause with
    | play _ _ _ hsettled | unpause _ _ hsettled | settled _ _ hsettled =>
      cases hsettled.symm.trans hbusy
    | cleaned hp hi => exact ⟨_, hp, hi, rfl⟩
  · rintro ⟨p, hp, hi, rfl⟩
    have hcause := cause?_eq_some_iff.mpr (Due.cleaned hp hi)
    obtain ⟨f, hf⟩ := flight_of_cause? hr hcause
    exact ⟨_, hcause, f.activation p.startItem true, by rw [attempt?, hf]; rfl⟩

/-- The sample after a run that was broken off at its item 3. -/
def interrupted : Execution :=
  { sample with
    mission := { sample.mission with cursor := { lastItem := 3 } }
    recovery := some "photo 3" }

/-- The mission that was broken off is played, and the camera gets busy while media are deleted. -/
def tidying : List Input :=
  [reportIdle, .notice (.connection true), .notice (.camera .ready), .wish (.setup interrupted []),
    .wish .play, .notice (.camera { present := true, configuring := true })]

theorem activates_tidying :
    ∃ e' log, (trial {} (smoothly tidying)).2.step {} (.notice (.cleanedUp "field" .done))
        = .ok (e', log) ∧
      (lastCamera (⟨{}, .notice (.cleanedUp "field" .done), log⟩ ::
        (trial {} (smoothly tidying)).1)).isSettled = false ∧
      ∃ d ∈ dispatches (trial {} (smoothly tidying)).2.state log, d.order.activates = true := by
  obtain ⟨e', log, hs⟩ : ∃ e' log,
      (trial {} (smoothly tidying)).2.step {} (.notice (.cleanedUp "field" .done))
        = .ok (e', log) := ⟨_, _, step_of_handle rfl⟩
  have hc : (lastCamera (⟨{}, .notice (.cleanedUp "field" .done), log⟩ ::
      (trial {} (smoothly tidying)).1)).isSettled = false := by
    have hlast : (lastCamera (trial {} (smoothly tidying)).1).isSettled = false := by decide
    exact hlast
  refine ⟨e', log, hs, hc, ?_⟩
  refine ((history_trial {} (smoothly tidying)).activates_busy_iff hs hc).mpr ?_
  exact ⟨⟨"field", 3⟩, by decide, by decide, rfl⟩

/-- An activation can be sent to an aircraft with a busy camera. -/
theorem not_forall_settled_of_activates :
    ¬ ∀ settings ts e w i e' log, History settings ts e → e.step w i = .ok (e', log) →
      ∀ d ∈ dispatches e.state log, d.order.activates = true →
        (lastCamera (⟨w, i, log⟩ :: ts)).isSettled = true := by
  intro hall
  let past := trial {} (smoothly tidying)
  have hs : past.2.step {} (.notice (.cleanedUp "field" .done)) = _ := step_of_handle rfl
  have hsent : (dispatches past.2.state
      (({ past.2 with log := [] } : Engine).notice {} (.cleanedUp "field" .done)).log).any
        (·.order.activates) = true := by
    decide
  obtain ⟨d, hd, ha⟩ := List.any_eq_true.mp hsent
  have hc := hall _ _ _ _ _ _ _ (history_trial _ _) hs d hd ha
  have hbusy : (lastCamera past.1).isSettled = false := by decide
  exact absurd (hbusy.symm.trans hc) (by decide)

end Sortie.Run
