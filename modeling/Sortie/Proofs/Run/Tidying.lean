import Sortie.Proofs.Run.Charges

/-!
# Missions that go on where they were broken off

A mission that is played again goes on at its item, once the media of the earlier attempt are
deleted.  From the launch on until the pilot asks again, all that can be put off is this deletion
(`Registers.Tidies`), so the mission is activated by nothing but the news that the media are
deleted.  If they are not, the attempt is given up, and no activation follows
(`Reachable.launch_tidies`).
-/

namespace Sortie.Run

namespace Registers

variable {w : Outlook} {f : Facts} {r r₁ r' : Registers} {i : Input} {c : Cause}
  {p : PendingCleanUp}

/-- Nothing is put off but that media of the loaded mission are deleted. -/
structure Tidies (p : PendingCleanUp) (r : Registers) : Prop where
  settling_eq_none : r.settling = none
  cleanUp : r.cleanUp = none ∨ r.cleanUp = some p ∧ r.loaded = some p.missionId

theorem tidies_clear (hs : r.settling = none) (hc : r.cleanUp = none) : r.Tidies p :=
  ⟨hs, .inl hc⟩

/-- What is put off changes only if it is taken up or forgotten. -/
theorem Tidies.move {t : Turn} (h : r.Tidies p) (ha : t.asks = false) (hm : Move w f r t.input r') :
    r'.Tidies p := by
  obtain ⟨v, i, log⟩ := t
  cases hm with
  | stay | empty | rest | hold | goHome => exact ⟨h.settling_eq_none, h.cleanUp⟩
  | pause => exact ⟨rfl, h.cleanUp⟩
  | unready hask | attempt hask | defer hask =>
    exact absurd hask (not_asked (t := ⟨v, i, log⟩) ha)
  | settled _ hs | unsettled hs | exhausted hs => cases h.settling_eq_none.symm.trans hs
  | cleaned _ _ ho =>
    cases ho with
    | sent => exact tidies_clear h.settling_eq_none rfl
    | rejected => exact tidies_clear rfl rfl
  | drop => exact tidies_clear h.settling_eq_none rfl
  | load | unload | quiet | stop | catchUp | lose | finish | start | abandon | canceled | timeout =>
    exact tidies_clear rfl rfl

theorem Begins.loaded_eq (h : r.Begins i c r₁) : r₁.loaded = r.loaded := by
  cases h <;> rfl

/-- An attempt that begins with media to be deleted puts off nothing else, or it is given up. -/
theorem Outcome.tidies {missionId resource : String}
    (h : Outcome w r (some (.cleanUp missionId resource)) r') (hs : r.settling = none)
    (hl : r.loaded = some missionId) : ∃ p, r'.Tidies p := by
  cases h with
  | cleaning item => exact ⟨⟨missionId, item⟩, hs, .inr ⟨rfl, hl⟩⟩
  | canceled => exact ⟨⟨missionId, 0⟩, tidies_clear rfl rfl⟩

theorem Outcome.eq_fail {missionId resource : String}
    (h : Outcome w r (some (.cleanUp missionId resource)) r')
    (hrefused : w.refusal (.cleanUp missionId resource) ≠ none) : r' = r.fail .cleanUpCanceled := by
  cases h with
  | cleaning _ haccepted => exact absurd haccepted hrefused
  | canceled => rfl

end Registers

open Registers (Outcome)

namespace Engine

variable {e e' e₁ e₂ : Engine} {w : Outlook} {i : Input} {c : Cause} {log : List Effect}
  {f : Flight} {p : PendingCleanUp}

/-- No activation is sent until the pilot asks again. -/
def StaysQuiet (e : Engine) : Prop :=
  ∀ ts e', Sequel e ts e' → (∀ t ∈ ts, t.asks = false) → ∀ t ∈ ts, t.activations = 0

theorem Reachable.staysQuiet (h : e.Reachable) (hp : ¬ e.registers.IsPending) : e.StaysQuiet := by
  intro ts e' hsequel hask t ht
  exact List.countP_eq_zero.mpr fun o ho => by simp [hsequel.not_activates h hp hask t ht o ho]

/-- An attempt that is given up leaves nothing behind. -/
theorem Reachable.staysQuiet_of_fail (h : e.Reachable) {r : Registers} {x : Failure}
    (hr : e.registers = r.fail x) : e.state = .failed x ∧ e.StaysQuiet := by
  refine ⟨State.eq_failed_iff.mpr (congrArg Registers.phase hr), h.staysQuiet ?_⟩
  rw [hr]
  simp [Registers.IsPending, Registers.fail]

/-! ### The launch -/

/-- Only a tick can go wrong, and it attempts nothing. -/
theorem exists_step_of_cause? (h : e.cause? i = some c) (w : Outlook) :
    ∃ e' log, e.step w i = .ok (e', log) := by
  cases i with
  | wish | notice | poll => exact ⟨_, _, step_of_handle rfl⟩
  | tick | timeout => cases h

theorem Due.isSettled (h : e.Due i c) (hc : ∀ item, c ≠ .cleanedUp item) :
    (e.facts.learn i).camera.isSettled = true := by
  cases h with
  | play _ _ _ hsettled | unpause _ _ hsettled | settled _ _ hsettled => exact hsettled
  | cleaned => exact absurd rfl (hc _)

/-- An attempt that needs the camera to have settled leaves nothing that waits for it. -/
theorem Reachable.settling_eq_none (h : e.Reachable) (hd : e.Due i c)
    (hc : ∀ item, c ≠ .cleanedUp item) {r : Registers} (hb : e.registers.Begins i c r) :
    r.settling = none := by
  have hsettled := hd.isSettled hc
  cases hb with
  | asked ha =>
    have hi : i.looks = false := by cases ha <;> rfl
    rw [camera_learn_of_not_looks hi] at hsettled
    refine Option.not_isSome_iff_eq_none.mp fun hs => ?_
    cases (h.busy_of_settling hs).symm.trans hsettled
  | settled => rfl
  | cleaned => exact absurd rfl (hc _)

/-- A launch begins with old media to be deleted if there are any and the aircraft can go on where
the mission was broken off. -/
theorem attempt?_launch_eq_cleanUp (hf : e.flight = some f) (hitem : 0 < f.record.cursor.lastItem)
    {resource : String} (hrecovery : f.record.recovery = some resource) (hne : resource ≠ "")
    (hresumes : e.facts.resumes = true) (hground : e.facts.landed = true → w.mayTakeOff = true) :
    e.attempt? w .launch = some (.cleanUp f.record.missionId resource) := by
  have hallowed : (e.facts.landed && !w.mayTakeOff) = false := by
    cases hl : e.facts.landed with
    | false => rfl
    | true => simp [hground hl]
  have hresumed : ¬ (f.record.cursor.lastItem = 0 || !e.facts.resumes) = true := by
    simp [hresumes, Nat.pos_iff_ne_zero.mp hitem]
  have hkept : f.record.recovery.filter (· ≠ "") = some resource := by simp [hrecovery, hne]
  show e.launchOrder? w = _
  unfold launchOrder?
  rw [hf, Option.bind_some, hallowed, if_neg Bool.false_ne_true, if_neg hresumed, hkept]

/-! ### The answer -/

/-- What is put off is taken up when the media are deleted. -/
theorem answered_of_activates {t : Turn} (ht : e.registers.Tidies p)
    (hs : e.step t.outlook t.input = .ok (e', t.effects)) (ha : t.asks = false)
    (hactivates : 0 < t.activations) :
    e.missionId? = some p.missionId ∧ t.input = .notice (.cleanedUp p.missionId .done) := by
  obtain ⟨c, hc, -⟩ := (exists_sent_activates_iff hs).mp (t.activations_pos_iff.mp hactivates)
  obtain ⟨v, i, log⟩ := t
  cases due_of_cause? hc with
  | play | unpause => cases ha
  | settled _ hsettling => cases ht.settling_eq_none.symm.trans hsettling
  | @cleaned q hq _ =>
    have hcleanUp : e.registers.cleanUp = some q := hq
    rcases ht.cleanUp with hnone | ⟨hsome, hl⟩
    · cases hnone.symm.trans hcleanUp
    · obtain rfl := Option.some.inj (hsome.symm.trans hcleanUp)
      exact ⟨hl, rfl⟩

theorem registers_canceled (hc : e.cleanUp = some p) (hi : e.intent = .playing)
    (hs : e.step w (.notice (.cleanedUp p.missionId .canceled)) = .ok (e', log)) :
    e'.registers = e.registers.fail .cleanUpCanceled := by
  obtain ⟨e₁, hh, rfl, -⟩ := handle_of_step hs
  cases hh
  show (({ e with log := [] } : Engine).onCleanedUp w p.missionId .canceled).registers = _
  simp only [onCleanedUp, hc, hi, if_true, registers_fail]
  rfl

/-- The attempt is given up when the media that it waits for are not deleted. -/
theorem Reachable.fails_of_canceled (h : e.Reachable) (ht : e.registers.Tidies p) {id : String}
    (hs : e.step w (.notice (.cleanedUp id .canceled)) = .ok (e', log))
    (hsome : e.cleanUp.isSome = true) (hi : e.intent = .playing) (hid : e.missionId? = some id) :
    e'.state = .failed .cleanUpCanceled ∧ e'.StaysQuiet := by
  rcases ht.cleanUp with hnone | ⟨hcleanUp, hl⟩
  · have hnone : e.cleanUp = none := hnone
    rw [hnone] at hsome
    cases hsome
  · obtain rfl : p.missionId = id := Option.some.inj (hl.symm.trans hid)
    exact (h.step hs).staysQuiet_of_fail (registers_canceled hcleanUp hi hs)

/-! ### From the launch on -/

theorem tidies_sequel {ts : List Turn} (h : Sequel e ts e₁) (he : e.Reachable)
    (ht : e.registers.Tidies p) (hquiet : ∀ t ∈ ts, t.asks = false) : e₁.registers.Tidies p := by
  refine (h.keep (P := fun e => e.Reachable ∧ e.registers.Tidies p)
    (Q := fun t => t.asks = false) ?_ ⟨he, ht⟩ hquiet).1.2
  rintro e₁ e₂ t ⟨hr, h₁⟩ hask hs
  exact ⟨hr.step hs, h₁.move hask (move_step hr.coherent.backed hs)⟩

/-- **A mission that goes on where it was broken off waits until old media are deleted.**  The
launch has them deleted and sends no activation.  Until the pilot asks again, an activation is sent
only in answer to the news that they are deleted; and if the aircraft refuses to delete them or
does not, the attempt is given up, and no activation is sent. -/
theorem Reachable.launch_tidies (h : e.Reachable) (hc : e.cause? i = some .launch)
    (hf : e.flight = some f) (hitem : 0 < f.record.cursor.lastItem) {resource : String}
    (hrecovery : f.record.recovery = some resource) (hne : resource ≠ "")
    (hresumes : e.facts.resumes = true) (hground : e.facts.landed = true → w.mayTakeOff = true) :
    ∃ e' log, e.step w i = .ok (e', log) ∧
      .cleanUp f.record.missionId resource ∈ sent log ∧ (∀ o ∈ sent log, o.activates = false) ∧
      (w.refusal (.cleanUp f.record.missionId resource) ≠ none →
        e'.state = .failed .cleanUpCanceled ∧ e'.StaysQuiet) ∧
      ∀ ts e₁, Sequel e' ts e₁ → (∀ t ∈ ts, t.asks = false) →
        ∀ (t : Turn) e₂, e₁.step t.outlook t.input = .ok (e₂, t.effects) → t.asks = false →
          (0 < t.activations →
            ∃ id, e₁.missionId? = some id ∧ t.input = .notice (.cleanedUp id .done)) ∧
          (e₁.cleanUp.isSome = true → e₁.intent = .playing →
            ∀ id, e₁.missionId? = some id → t.input = .notice (.cleanedUp id .canceled) →
              e₂.state = .failed .cleanUpCanceled ∧ e₂.StaysQuiet) := by
  obtain ⟨e', log, hs⟩ := exists_step_of_cause? hc w
  have hattempt := attempt?_launch_eq_cleanUp hf hitem hrecovery hne hresumes hground
  have hd := due_of_cause? hc
  obtain ⟨r, hbegins, houtcome⟩ := hd.outcome h.coherent hs
  have hsettling : r.settling = none := h.settling_eq_none hd (fun _ => nofun) hbegins
  have hloaded : r.loaded = some f.record.missionId :=
    hbegins.loaded_eq.trans (loaded_eq_of_flight hf)
  have horders : sent log = e.directOrders i ++ [.cleanUp f.record.missionId resource] := by
    rw [sent_step hs, orders, hc, Option.bind_some, hattempt]
    rfl
  rw [hattempt] at houtcome
  obtain ⟨p, htidies⟩ := houtcome.tidies hsettling hloaded
  refine ⟨e', log, hs, by simp [horders], ?_, fun hrefused => ?_, ?_⟩
  · intro o ho
    rw [horders] at ho
    rcases List.mem_append.mp ho with ho | ho
    · exact directOrders_activates ho
    · rw [List.mem_singleton.mp ho]
      rfl
  · exact (h.step hs).staysQuiet_of_fail (houtcome.eq_fail hrefused)
  · intro ts e₁ hsequel hquiet t e₂ hturn ha
    have hreachable : e₁.Reachable := hsequel.reachable (h.step hs)
    have hnow : e₁.registers.Tidies p := tidies_sequel hsequel (h.step hs) htidies hquiet
    refine ⟨fun hactivates => ⟨_, answered_of_activates hnow hturn ha hactivates⟩, ?_⟩
    intro hsome hi id hid hinput
    rw [hinput] at hturn
    exact hreachable.fails_of_canceled hnow hturn hsome hi hid

/-- The mission was broken off, and the aircraft is ready to go on with it. -/
def resumption : List Input :=
  [reportIdle, .notice (.connection true), .notice (.camera .ready), .wish (.setup interrupted [])]

/-- The media are not deleted, and the mission is not flown. -/
theorem launch_tidies_interrupted :
    ∃ e' log e₁ log₁, (trial {} (smoothly resumption)).2.step {} (.wish .play) = .ok (e', log) ∧
      .cleanUp "field" "photo 3" ∈ sent log ∧
      e'.step {} (.notice (.cleanedUp "field" .canceled)) = .ok (e₁, log₁) ∧
      e₁.state = .failed .cleanUpCanceled ∧ e₁.StaysQuiet := by
  have hf : (trial {} (smoothly resumption)).2.flight = some (.load interrupted []) := rfl
  obtain ⟨e', log, hs, hsent, -, -, hlater⟩ :=
    (reachable_trial {} (smoothly resumption)).launch_tidies (w := {}) (i := .wish .play)
      (by decide) hf (by decide) rfl (by decide) (by decide) (fun _ => rfl)
  have hregisters : ((trial {} (smoothly resumption)).2.step {} (.wish .play)).map (·.1.registers)
      = .ok ⟨.idle, .playing, .activating "field", false, none, some ⟨"field", 3⟩, some "field"⟩ := by
    rfl
  rw [hs] at hregisters
  have hr : e'.registers = _ := Except.ok.inj hregisters
  have hcleanUp : e'.cleanUp = some ⟨"field", 3⟩ := congrArg Registers.cleanUp hr
  obtain ⟨e₁, log₁, hnext⟩ :
      ∃ e₁ log₁, e'.step {} (.notice (.cleanedUp "field" .canceled)) = .ok (e₁, log₁) :=
    ⟨_, _, step_of_handle rfl⟩
  refine ⟨e', log, e₁, log₁, hs, hsent, hnext, ?_⟩
  exact (hlater [] e' .here (fun t ht => absurd ht List.not_mem_nil)
    ⟨{}, .notice (.cleanedUp "field" .canceled), log₁⟩ e₁ hnext rfl).2 (by rw [hcleanUp]; rfl)
      (congrArg Registers.intent hr) "field" (congrArg Registers.loaded hr) rfl

end Engine

end Sortie.Run
