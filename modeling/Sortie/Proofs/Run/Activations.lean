import Sortie.Proofs.Run.Coherence
import Sortie.Proofs.Run.Facts
import Sortie.Proofs.Run.Orders

/-!
# When missions are activated

A step sends an activation exactly if it attempts one and the attempt begins with it
(`exists_activates_iff`).  Attempts are made at once, when the pilot plays or resumes a mission
that is not flown, or later, when what was put off is carried out (`cause?_eq_some`).

What is put off is not dropped when a paused mission flies home, and it is carried out then as
ever: this is how an activation is sent in flight (`Reachable.activates_in_flight_iff`).  And only
a launch asks whether take-off is allowed: a resumption, or a start after old media are deleted,
does not (`History.activates_unguarded_iff`).
-/

namespace Sortie.Run

namespace Engine

variable {e e' : Engine} {w : Outlook} {i : Input} {c : Cause} {log : List Effect}

/-- An attempt that begins with an activation. -/
def Activates (e : Engine) (w : Outlook) (c : Cause) : Prop :=
  ∃ a, e.attempt? w c = some (.activate a)

/-! ### Attempts -/

/-- When an attempt is due, and why. -/
inductive Due (e : Engine) : Input → Cause → Prop
  | play (hf : e.flight.isSome = true) (hp : ¬ e.state.phase.IsFlying)
      (hr : e.facts.isReady = true) (hc : e.facts.camera.isSettled = true) :
      Due e (.wish .play) .launch
  | unpause (hp : e.state.phase = .paused) (hr : e.facts.isPaused = true)
      (hc : e.facts.camera.isSettled = true) : Due e (.wish .unpause) .resume
  | settled {i : Input} {s : Settling} (hi : i.looks = true) (hs : e.settling = some s)
      (hc : (e.facts.learn i).camera.isSettled = true) : Due e i s.cause
  | cleaned {p : PendingCleanUp} (hp : e.cleanUp = some p) (hi : e.intent = .playing) :
      Due e (.notice (.cleanedUp p.missionId .done)) (.cleanedUp p.startItem)

theorem settled?_eq_some {camera : Camera} (h : e.settled? camera = some c) :
    ∃ s, e.settling = some s ∧ camera.isSettled = true ∧ c = s.cause := by
  unfold settled? at h
  split at h
  · next hc =>
    obtain ⟨s, hs, rfl⟩ := Option.map_eq_some_iff.mp h
    exact ⟨s, hs, hc, rfl⟩
  · cases h

theorem due_of_cause? (h : e.cause? i = some c) : e.Due i c := by
  cases i with
  | tick | timeout => cases h
  | poll =>
    obtain ⟨s, hs, hc, rfl⟩ := settled?_eq_some h
    exact .settled rfl hs hc
  | wish x =>
    cases x with
    | play =>
      simp only [cause?, Option.ite_none_right_eq_some, Bool.and_eq_true, Bool.not_eq_true',
        decide_eq_false_iff_not, Option.some.injEq] at h
      obtain ⟨⟨⟨⟨hf, hp⟩, hr⟩, hc⟩, rfl⟩ := h
      exact .play hf hp hr hc
    | unpause =>
      simp only [cause?, Option.ite_none_right_eq_some, Bool.and_eq_true, decide_eq_true_eq,
        Option.some.injEq] at h
      obtain ⟨⟨⟨hp, hr⟩, hc⟩, rfl⟩ := h
      exact .unpause hp hr hc
    | setup | pause | stop | reset | catchUp | update | setAvailability => cases h
  | notice n =>
    cases n with
    | camera camera =>
      obtain ⟨s, hs, hc, rfl⟩ := settled?_eq_some h
      exact .settled rfl hs hc
    | cleanedUp missionId result =>
      cases result with
      | canceled => cases h
      | done =>
        rw [cause?_cleanedUp] at h
        split at h
        · next hi =>
          obtain ⟨p, hp, rfl⟩ := Option.map_eq_some_iff.mp h
          obtain ⟨hsome, hid⟩ := Option.filter_eq_some_iff.mp hp
          obtain rfl : p.missionId = missionId := of_decide_eq_true hid
          exact .cleaned hsome hi
        · cases h
    | interface | returnHome | connection | landed | position => cases h

theorem cause?_eq_some_iff : e.cause? i = some c ↔ e.Due i c := by
  refine ⟨due_of_cause?, fun h => ?_⟩
  cases h with
  | play hf hp hr hc => simp [cause?, hf, hp, hr, hc]
  | unpause hp hr hc => simp [cause?, hp, hr, hc]
  | @settled i s hi hs hc =>
    have hsettled {camera : Camera} (hc : camera.isSettled = true) :
        e.settled? camera = some s.cause := by
      unfold settled?
      rw [if_pos hc, hs]
      rfl
    cases i with
    | poll => exact hsettled hc
    | notice n =>
      cases n with
      | camera camera => exact hsettled hc
      | interface | returnHome | connection | landed | position | cleanedUp => cases hi
    | wish | tick | timeout => cases hi
  | @cleaned p hp hi =>
    have hfil : (some p).filter (·.missionId = p.missionId) = some p := by simp
    rw [cause?_cleanedUp, if_pos hi, hp, hfil]
    rfl

/-- Where an attempt comes from. -/
theorem cause?_eq_some (h : e.cause? i = some c) :
    (i = .wish .play ∧ e.flight.isSome = true ∧ ¬ e.state.phase.IsFlying ∧ c = .launch) ∨
    (i = .wish .unpause ∧ e.state.phase = .paused ∧ c = .resume) ∨
    (∃ s, e.settling = some s ∧ c = s.cause) ∨
    ∃ p, e.cleanUp = some p ∧ c = .cleanedUp p.startItem := by
  cases due_of_cause? h with
  | play hf hp => exact .inl ⟨rfl, hf, hp, rfl⟩
  | unpause hp => exact .inr (.inl ⟨rfl, hp, rfl⟩)
  | settled _ hs => exact .inr (.inr (.inl ⟨_, hs, rfl⟩))
  | cleaned hp => exact .inr (.inr (.inr ⟨_, hp, rfl⟩))

/-- An attempt is made only for a loaded mission. -/
theorem flight_of_cause? (hr : e.registers.Coherent) (h : e.cause? i = some c) :
    ∃ f, e.flight = some f := by
  rcases cause?_eq_some h with ⟨-, hf, -⟩ | ⟨-, hp, -⟩ | ⟨s, hs, -⟩ | ⟨p, hp, -⟩
  · exact Option.isSome_iff_exists.mp hf
  · have hp : e.registers.phase = .paused := hp
    exact exists_flight (hr.loaded_iff.mpr (hp ▸ Phase.hasMission_paused))
  · exact exists_flight (hr.loaded_of_deferred (.inl (Option.isSome_iff_exists.mpr ⟨s, hs⟩)))
  · exact exists_flight (hr.loaded_of_deferred (.inr (Option.isSome_iff_exists.mpr ⟨p, hp⟩)))

/-- The orders that are no attempt are no activations. -/
theorem directOrders_activates {o : Order} (h : o ∈ e.directOrders i) : o.activates = false := by
  have hcorrection : ∀ o ∈ e.correction, o.activates = false := by
    intro o ho
    unfold correction at ho
    split at ho <;> simp_all [Order.activates]
  cases i with
  | wish x => cases x <;> simp_all [directOrders, Order.activates]
  | notice n =>
    cases n with
    | interface report =>
      simp only [directOrders, List.mem_ite_nil_right] at h
      exact hcorrection o h.2
    | _ => simp_all [directOrders, Order.activates]
  | timeout => simp_all [directOrders, Order.activates]
  | tick | poll => cases h

theorem exists_activates_iff (hs : e.step w i = .ok (e', log)) :
    (∃ d ∈ dispatches e.state log, d.order.activates = true) ↔
      ∃ c, e.cause? i = some c ∧ e.Activates w c := by
  rw [dispatches_step hs]
  constructor
  · rintro ⟨d, hd, ha⟩
    obtain ⟨o, ho, rfl⟩ := List.mem_map.mp hd
    have ha : o.activates = true := ha
    rcases List.mem_append.mp ho with ho | ho
    · rw [directOrders_activates ho] at ha
      cases ha
    · obtain ⟨c, hc, hattempt⟩ := Option.bind_eq_some_iff.mp (Option.mem_toList.mp ho)
      cases o with
      | activate a => exact ⟨c, hc, a, hattempt⟩
      | prepare | deactivate | stop | cleanUp => cases ha
  · rintro ⟨c, hc, a, ha⟩
    refine ⟨e.dispatch w (.activate a), List.mem_map_of_mem ?_, rfl⟩
    refine List.mem_append_right _ (Option.mem_toList.mpr ?_)
    exact Option.bind_eq_some_iff.mpr ⟨c, hc, ha⟩

/-! ### In flight -/

/-- **In flight an activation is sent only on the way home, when one put off earlier is carried
out.**  Then it is sent whenever the attempt begins with one.  While the mission is played nothing
is put off. -/
theorem Reachable.activates_in_flight_iff (h : e.Reachable)
    (hs : e.step w i = .ok (e', log)) :
    (∃ d ∈ dispatches e.state log, d.order.activates = true ∧ d.state.phase.IsFlying) ↔
      e.state.phase = .returning ∧ (e.settling.isSome = true ∨ e.cleanUp.isSome = true) ∧
        ∃ c, e.cause? i = some c ∧ e.Activates w c := by
  have hr := h.coherent
  constructor
  · rintro ⟨d, hd, ha, hflying⟩
    rw [state_of_mem_dispatches hs hd] at hflying
    obtain ⟨c, hc, hac⟩ := (exists_activates_iff hs).mp ⟨d, hd, ha⟩
    have hdeferred : e.settling.isSome = true ∨ e.cleanUp.isSome = true := by
      rcases cause?_eq_some hc with ⟨-, -, hn, -⟩ | ⟨-, hp, -⟩ | ⟨s, hsome, -⟩ | ⟨p, hsome, -⟩
      · exact absurd hflying hn
      · rw [hp] at hflying
        simp [Phase.IsFlying] at hflying
      · exact .inl (hsome ▸ rfl)
      · exact .inr (hsome ▸ rfl)
    refine ⟨hflying.resolve_left fun hp => ?_, hdeferred, c, hc, hac⟩
    obtain ⟨hsettling, hcleanUp⟩ : e.settling = none ∧ e.cleanUp = none := hr.ready_of_playing hp
    rw [hsettling, hcleanUp] at hdeferred
    simp at hdeferred
  · rintro ⟨hp, -, hc⟩
    obtain ⟨d, hd, ha⟩ := (exists_activates_iff hs).mpr hc
    exact ⟨d, hd, ha, .inr ((congrArg State.phase (state_of_mem_dispatches hs hd)).trans hp)⟩

/-- A resumption waits for the camera when the paused mission flies home. -/
def homeward : List Input :=
  departure ++ [.wish .pause, reportPaused,
    .notice (.camera { present := true, configuring := true }), .wish .unpause,
    .notice (.returnHome true .plan)]

theorem activates_homeward :
    ∃ e' log, (trial {} (smoothly homeward)).2.step {} (.notice (.camera .ready)) = .ok (e', log) ∧
      ∃ d ∈ dispatches (trial {} (smoothly homeward)).2.state log,
        d.order.activates = true ∧ d.state.phase.IsFlying := by
  obtain ⟨e', log, hs⟩ : ∃ e' log,
      (trial {} (smoothly homeward)).2.step {} (.notice (.camera .ready)) = .ok (e', log) :=
    ⟨_, _, step_of_handle rfl⟩
  refine ⟨e', log, hs, ((reachable_trial _ _).activates_in_flight_iff hs).mpr ?_⟩
  exact ⟨by decide, by decide, .resume, by decide, _, rfl⟩

/-- An activation can be sent on the way home. -/
theorem not_forall_not_flying_of_activates :
    ¬ ∀ e w i e' log, Reachable e → e.step w i = .ok (e', log) →
      ∀ d ∈ dispatches e.state log, d.order.activates = true → ¬ d.state.phase.IsFlying := by
  intro hall
  let e := (trial {} (smoothly homeward)).2
  have hs : e.step {} (.notice (.camera .ready)) = _ := step_of_handle rfl
  have hsent : (dispatches e.state
      (({ e with log := [] } : Engine).notice {} (.camera .ready)).log).any
        (fun d => d.order.activates && decide d.state.phase.IsFlying) = true := by decide
  obtain ⟨d, hd, hd'⟩ := List.any_eq_true.mp hsent
  rw [Bool.and_eq_true, decide_eq_true_eq] at hd'
  exact hall _ _ _ _ _ (reachable_trial _ _) hs d hd hd'.1 hd'.2

/-! ### From the ground -/

/-- Only a launch asks whether take-off is allowed. -/
theorem activates_iff_of_landed (hr : e.registers.Coherent) (hl : e.facts.landed = true)
    (hg : w.mayTakeOff = false) (hc : e.cause? i = some c) : e.Activates w c ↔ c ≠ .launch := by
  obtain ⟨f, hf⟩ := flight_of_cause? hr hc
  cases c with
  | launch => simp [Activates, attempt?, launchOrder?, hf, hl, hg]
  | resume => simp [Activates, attempt?, hf]
  | cleanedUp item => simp [Activates, attempt?, hf]

end Engine

open Engine

/-- **On the ground and against the take-off guard, an activation is sent exactly if it is not a
launch**: if it resumes the mission, or if it starts it after old media are deleted.  The aircraft
is on the ground unless it was last reported off it. -/
theorem History.activates_unguarded_iff {settings : RunSettings} {ts : List Turn}
    {e e' : Engine} {w : Outlook} {i : Input} {log : List Effect}
    (h : History settings ts e) (hs : e.step w i = .ok (e', log))
    (hl : ts.findSome? Turn.landed? ≠ some false) (hg : w.mayTakeOff = false) :
    (∃ d ∈ dispatches e.state log, d.order.activates = true) ↔
      ∃ c, e.cause? i = some c ∧ c ≠ .launch := by
  have hr : e.registers.Coherent := Reachable.coherent ⟨settings, ts, h⟩
  have hlanded : e.facts.landed = true := by
    rw [h.landed_eq]
    cases hx : ts.findSome? Turn.landed? with
    | none => rfl
    | some landed =>
      cases landed with
      | true => rfl
      | false => exact absurd hx hl
  rw [exists_activates_iff hs]
  refine exists_congr fun c => and_congr_right fun hc => ?_
  exact activates_iff_of_landed hr hlanded hg hc

/-- The mission is paused in the air, and the aircraft lands. -/
def landing : List Input :=
  preparation ++ [.wish .play, .notice (.landed false), reportActive, .wish .pause, reportPaused,
    .notice (.landed true)]

theorem activates_landing :
    ∃ e' log, (trial {} (smoothly landing)).2.step { mayTakeOff := false } (.wish .unpause)
        = .ok (e', log) ∧
      ∃ d ∈ dispatches (trial {} (smoothly landing)).2.state log, d.order.activates = true := by
  obtain ⟨e', log, hs⟩ : ∃ e' log,
      (trial {} (smoothly landing)).2.step { mayTakeOff := false } (.wish .unpause)
        = .ok (e', log) := ⟨_, _, step_of_handle rfl⟩
  refine ⟨e', log, hs, ?_⟩
  refine ((history_trial {} (smoothly landing)).activates_unguarded_iff hs ?_ rfl).mpr ?_
  · decide
  · exact ⟨.resume, by decide, by decide⟩

/-- An activation can be sent on the ground against the take-off guard. -/
theorem not_forall_guarded_of_activates :
    ¬ ∀ settings ts e w i e' log, History settings ts e → e.step w i = .ok (e', log) →
      ∀ d ∈ dispatches e.state log, d.order.activates = true →
        ts.findSome? Turn.landed? = some false ∨ w.mayTakeOff = true := by
  intro hall
  let past := trial {} (smoothly landing)
  let w : Outlook := { mayTakeOff := false }
  have hs : past.2.step w (.wish .unpause) = _ := step_of_handle rfl
  have hsent : (dispatches past.2.state
      (({ past.2 with log := [] } : Engine).heed w .unpause).log).any (·.order.activates) = true := by
    decide
  obtain ⟨d, hd, ha⟩ := List.any_eq_true.mp hsent
  rcases hall _ _ _ _ _ _ _ (history_trial _ _) hs d hd ha with hl | hg
  · exact absurd hl (by decide)
  · cases hg

end Sortie.Run
