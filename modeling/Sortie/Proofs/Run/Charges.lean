import Sortie.Proofs.Run.Acknowledgment
import Sortie.Proofs.Run.Attempts
import Sortie.Proofs.Run.Failures

/-!
# Activations and what they are charged to

No activation is sent that the pilot has not asked for.  Each is charged to one of his wishes: a
wish is spent at once, or it is put off until the camera has settled or old media are deleted, and
an attempt that is put off is spent when it is taken up (`charge_step`).  So there are at most as
many activations as wishes (`History.countP_activates_le`), and one that no wish has brought about
since some moment was put off at that moment (`History.asked_or_pending`).

A wish is not held back by an activation that the aircraft has not answered yet.  The mission is
activated again, though the first activation is still under way (`History.activations_charged`).
-/

namespace Sortie.Run

/-- How many activations a turn sends. -/
def Turn.activations (t : Turn) : Nat :=
  (sent t.effects).countP Order.activates

theorem Turn.activations_pos_iff (t : Turn) :
    0 < t.activations ↔ ∃ o ∈ sent t.effects, o.activates = true :=
  List.countP_pos_iff

namespace Registers

variable {w : Outlook} {f : Facts} {r r₁ r' : Registers} {i : Input} {c : Cause} {o : Option Order}

/-- How many attempts are put off. -/
def putOff (r : Registers) : Nat :=
  r.settling.isSome.toNat + r.cleanUp.isSome.toNat

/-- An attempt is spent, or it is put off until old media are deleted. -/
theorem Outcome.putOff_le (h : Outcome w r o r') :
    (o.any Order.activates).toNat + r'.putOff ≤ 1 + r.putOff := by
  cases h with
  | grounded => exact Nat.add_le_add_right (Nat.zero_le 1) _
  | sent => exact Nat.le_refl _
  | rejected => simp [putOff, fail, Order.activates]
  | cleaning => simp [putOff, want, Order.activates]; omega
  | canceled => simp [putOff, fail, Order.activates]

/-- What an attempt begins with is taken from the pilot's wish, or from what was put off. -/
theorem Begins.putOff_le {t : Turn} (h : r.Begins t.input c r₁) :
    1 + r₁.putOff ≤ t.asks.toNat + r.putOff := by
  obtain ⟨w, i, log⟩ := t
  cases h with
  | asked ha => cases ha <;> exact Nat.le_refl _
  | settled hi hs => simp [putOff, hs]
  | cleaned hp => simp [putOff, hp]; omega

/-- Only a wish has more put off. -/
theorem Move.putOff_le {t : Turn} (hm : Move w f r t.input r') :
    r'.putOff ≤ t.asks.toNat + r.putOff := by
  obtain ⟨w, i, log⟩ := t
  cases hm with
  | stay | unready | empty | rest | hold | goHome => exact Nat.le_add_left _ _
  | attempt ha hl _ ho =>
    have hspent := ho.putOff_le
    have hasked := Begins.putOff_le (t := ⟨w, i, log⟩) (.asked ha hl)
    omega
  | defer ha =>
    have hasked : Turn.asks ⟨w, i, log⟩ = true := by cases ha <;> rfl
    simp [putOff, expect, see, hasked]
  | settled hi hs _ ho =>
    have hspent := ho.putOff_le
    have htaken := Begins.putOff_le (t := ⟨w, i, log⟩) (.settled hi hs)
    omega
  | cleaned hc hi ho =>
    have hspent := ho.putOff_le
    have htaken := Begins.putOff_le (t := ⟨w, .notice (.cleanedUp _ .done), log⟩) (.cleaned hc hi)
    omega
  | unsettled hs => simp [putOff, hs]
  | pause | drop => simp [putOff]; omega
  | load | unload | quiet | stop | catchUp | lose | finish | start | abandon | exhausted | canceled
  | timeout =>
    simp [putOff, Registers.unload, Registers.quiet, Registers.finish, Registers.start, fail, see,
      enter]

end Registers

namespace Engine

variable {e e' : Engine} {w : Outlook} {i : Input} {log : List Effect}

theorem activations_step {t : Turn} (hs : e.step t.outlook t.input = .ok (e', t.effects)) :
    t.activations = (((e.cause? t.input).bind (e.attempt? t.outlook)).any Order.activates).toNat := by
  have hdirect : (e.directOrders t.input).countP Order.activates = 0 :=
    List.countP_eq_zero.mpr fun o ho => by simp [directOrders_activates ho]
  unfold Turn.activations
  rw [sent_step hs, orders, List.countP_append, hdirect, Nat.zero_add]
  cases (e.cause? t.input).bind (e.attempt? t.outlook) with
  | none => rfl
  | some o => cases ho : o.activates <;> simp [ho]

theorem activates_play_iff (hs : e.step w (.wish .play) = .ok (e', log)) :
    (∃ o ∈ sent log, o.activates = true) ↔
      e.cause? (.wish .play) = some .launch ∧ e.Activates w .launch := by
  rw [exists_sent_activates_iff hs]
  constructor
  · rintro ⟨c, hc, ha⟩
    cases due_of_cause? hc with
    | play => exact ⟨hc, ha⟩
    | settled hi => cases hi
  · exact fun h => ⟨.launch, h⟩

/-- A resumption that is not put off is sent. -/
theorem activates_unpause_iff (hr : e.registers.Coherent)
    (hs : e.step w (.wish .unpause) = .ok (e', log)) :
    (∃ o ∈ sent log, o.activates = true) ↔
      e.state.phase = .paused ∧ e.facts.isPaused = true ∧ e.facts.camera.isSettled = true := by
  rw [exists_sent_activates_iff hs]
  constructor
  · rintro ⟨c, hc, -⟩
    cases due_of_cause? hc with
    | unpause hp hpaused hsettled => exact ⟨hp, hpaused, hsettled⟩
    | settled hi => cases hi
  · rintro ⟨hp, hpaused, hsettled⟩
    have hc := cause?_eq_some_iff.mpr (Due.unpause hp hpaused hsettled)
    obtain ⟨f, hf⟩ := flight_of_cause? hr hc
    exact ⟨_, hc, f.activation f.record.cursor.lastItem false, by rw [attempt?, hf]; rfl⟩

/-- **Each activation is charged to a wish**, to the one of this turn or to one put off. -/
theorem charge_step {t : Turn} (hr : e.registers.Coherent)
    (hs : e.step t.outlook t.input = .ok (e', t.effects)) :
    t.activations + e'.registers.putOff ≤ t.asks.toNat + e.registers.putOff := by
  rw [activations_step hs]
  cases hc : e.cause? t.input with
  | none => simpa using (move_step hr.backed hs).putOff_le
  | some c =>
    obtain ⟨r, hbegins, houtcome⟩ := (due_of_cause? hc).outcome hr hs
    have hspent := houtcome.putOff_le
    have htaken := hbegins.putOff_le
    rw [Option.bind_some]
    omega

end Engine

open Engine

namespace History

variable {settings : RunSettings} {ts : List Turn} {e : Engine}

/-- What is put off is charged to a wish as well. -/
theorem countP_activates_le (h : History settings ts e) :
    (ts.flatMap fun t => sent t.effects).countP Order.activates + e.registers.putOff
      ≤ ts.countP Turn.asks := by
  induction h with
  | fresh => exact Nat.le_refl _
  | @turn ts e e' t past now ih =>
    have hcharge := charge_step past.reachable.coherent now
    unfold Turn.activations at hcharge
    rw [List.flatMap_cons, List.countP_append, List.countP_cons]
    cases hask : t.asks with
    | true =>
      rw [hask, Bool.toNat_true] at hcharge
      rw [if_pos rfl]
      omega
    | false =>
      rw [hask, Bool.toNat_false] at hcharge
      rw [if_neg Bool.false_ne_true]
      omega

/-- An activation that no wish has brought about since some moment was put off at that moment. -/
theorem asked_or_pending {since before : List Turn} {t : Turn}
    (h : History settings (t :: since ++ before) e) (ha : 0 < t.activations) :
    (∃ u ∈ t :: since, u.asks = true) ∨
      ∃ e₁, History settings before e₁ ∧ e₁.registers.IsPending := by
  obtain ⟨e₁, hbefore, hsince⟩ := h.exists_sequel
  by_cases hask : ∃ u ∈ t :: since, u.asks = true
  · exact .inl hask
  · refine .inr ⟨e₁, hbefore, Classical.byContradiction fun hp => ?_⟩
    have hquiet : ∀ u ∈ t :: since, u.asks = false := by simpa using hask
    obtain ⟨o, ho, hactivates⟩ := t.activations_pos_iff.mp ha
    have hnot := hsince.not_activates hbefore.reachable hp hquiet t List.mem_cons_self o ho
    exact absurd (hactivates.symm.trans hnot) (by decide)

/-- A mission whose activation is under way is not played, since it would be active. -/
theorem not_playing_of_outstanding (h : History settings ts e) (ho : Outstanding ts e) :
    e.state.phase ≠ .playing := by
  intro hp
  obtain ⟨missionId, -, ha⟩ := ho.activating
  have hwatch : e.registers.watch = .activating missionId :=
    (Watch.activatingId?_eq_some_iff _ _).mp ha
  rw [h.reachable.coherent.active_of_wanted hp ho.wanted] at hwatch
  cases hwatch

theorem launches_outstanding_iff (h : History settings ts e) (ho : Outstanding ts e) :
    e.cause? (.wish .play) = some .launch ↔
      e.state.phase ≠ .returning ∧ e.facts.isReady = true ∧ e.facts.camera.isSettled = true := by
  obtain ⟨missionId, hid, -⟩ := ho.activating
  obtain ⟨f, hf⟩ := exists_flight (e := e) (Option.isSome_iff_exists.mpr ⟨missionId, hid⟩)
  have hp := h.not_playing_of_outstanding ho
  simp [cause?, hf, Phase.IsFlying, hp, and_assoc]

/-- **Activations are charged to wishes.**  There are at most as many activations as wishes, and an
activation that no wish has brought about since some moment was put off at that moment.  While an
activation is under way, a wish has the mission activated again as if none were: one to play it
unless it is on its way home, and one to resume it if it is paused. -/
theorem activations_charged (h : History settings ts e) :
    (ts.flatMap fun t => sent t.effects).countP Order.activates ≤ ts.countP Turn.asks ∧
    (∀ later since before t, ts = later ++ t :: since ++ before → 0 < t.activations →
      (∃ u ∈ t :: since, u.asks = true) ∨
        ∃ e₁, History settings before e₁ ∧ e₁.registers.IsPending) ∧
    (Outstanding ts e → ∀ w,
      (∃ e' log, e.step w (.wish .play) = .ok (e', log) ∧
        ((∃ o ∈ sent log, o.activates = true) ↔
          e.state.phase ≠ .returning ∧ e.facts.isReady = true ∧
            e.facts.camera.isSettled = true ∧ e.Activates w .launch)) ∧
      ∃ e' log, e.step w (.wish .unpause) = .ok (e', log) ∧
        ((∃ o ∈ sent log, o.activates = true) ↔
          e.state.phase = .paused ∧ e.facts.isPaused = true ∧
            e.facts.camera.isSettled = true)) := by
  refine ⟨?_, ?_, fun ho w => ⟨⟨_, _, step_of_handle rfl, ?_⟩, ⟨_, _, step_of_handle rfl, ?_⟩⟩⟩
  · have hcharged := h.countP_activates_le
    omega
  · rintro later since before t rfl ha
    rw [List.append_assoc] at h
    obtain ⟨e₁, hpast, -⟩ := h.exists_sequel
    exact hpast.asked_or_pending ha
  · rw [activates_play_iff (step_of_handle rfl), h.launches_outstanding_iff ho, and_assoc, and_assoc]
  · exact activates_unpause_iff h.reachable.coherent (step_of_handle rfl)

end History

/-- The mission is played again before the aircraft has answered. -/
theorem charged_again :
    ∃ e' log, (trial {} (smoothly (preparation ++ [.wish .play]))).2.step {} (.wish .play)
        = .ok (e', log) ∧
      ∃ o ∈ sent log, o.activates = true := by
  obtain ⟨-, -, hagain⟩ :=
    (history_trial {} (smoothly (preparation ++ [.wish .play]))).activations_charged
  obtain ⟨⟨e', log, hs, hiff⟩, -⟩ :=
    hagain ⟨⟨"field", by decide, by decide⟩, by decide, by decide⟩ {}
  exact ⟨e', log, hs, hiff.mpr ⟨by decide, by decide, by decide, _, rfl⟩⟩

/-- An activation is over: it is refused, or the run fails or ends. -/
def Effect.resolves : Effect → Bool
  | .order o (some _) => o.activates
  | .event (.stateChanged (.failed _)) | .event (.stateChanged (.ended ..)) => true
  | .order _ none | .event _ | .show _ => false

/-- An activation is over, or the aircraft flies the mission, or the run is forgotten. -/
def Turn.resolves (t : Turn) : Bool :=
  t.effects.any Effect.resolves || t.input.reportsActive ||
    match t.input with
    | .wish .reset => true
    | _ => false

/-- A second activation can be sent while the first is under way. -/
theorem not_forall_resolved :
    ¬ ∀ settings ts e, History settings ts e → ∀ later since before t u,
      ts = later ++ t :: since ++ u :: before → 0 < t.activations → 0 < u.activations →
        ∃ v ∈ t :: since ++ [u], v.resolves = true := by
  intro hall
  have hresolved := hall _ _ _
    (history_trial {} (smoothly (preparation ++ [.wish .play, .wish .play]))) [] [] _ _ _ rfl
    (by decide) (by decide)
  exact absurd hresolved (by decide)

end Sortie.Run
