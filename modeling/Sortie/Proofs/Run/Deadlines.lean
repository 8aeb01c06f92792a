import Sortie.Proofs.Run.Agreement
import Sortie.Proofs.Run.Schedules
import Sortie.Proofs.Run.Unloading

/-!
# The deadline of an activation

The deadline stands for as long as the engine waits for a mission to be taken up, and the engine
does so from the pass on in which the pilot asks (`AwaitedSince`).  Whether an activation has been
sent by then does not matter: it can be put off until the camera has settled or a medium is deleted.
So a run is given up no sooner than the whole time after the pilot has asked (`gives_up_iff`), and an
activation that is sent later has less (`not_forall_window`).
-/

namespace Sortie.Run

open Registers (Move Outcome)

namespace Pass

/-- The run is given up for want of an answer, perhaps once more. -/
def GivesUp (p : Pass) : Prop :=
  p.after.state = .failed .timeout ∧
    (p.before.state ≠ .failed .timeout ∨ p.before.watch ≠ .none ∧ p.after.watch = .none)

/-- An activation is sent. -/
def Activates (p : Pass) : Prop :=
  (sent p.turn.effects).any Order.activates = true

instance (p : Pass) : Decidable p.Activates :=
  inferInstanceAs (Decidable (_ = true))

end Pass

/-- The engine has been waiting for the mission to be taken up since a time.  A deadline that is
over while another mission is loaded starts anew. -/
inductive AwaitedSince (e₀ : Engine) (missionId : String) : List Pass → Nat → Prop
  | start (h : e₀.watch.activatingId? = some missionId) : AwaitedSince e₀ missionId [] 0
  | begins {ps : List Pass} {p : Pass} (h : p.after.watch.activatingId? = some missionId)
      (hp : p.turn.asks = true ∧ p.before.watch.activatingId? ≠ some missionId ∨
        p.turn.input = .timeout missionId) : AwaitedSince e₀ missionId (p :: ps) p.time
  | goesOn {ps : List Pass} {p : Pass} {t : Nat} (past : AwaitedSince e₀ missionId ps t)
      (h : p.after.watch.activatingId? = some missionId)
      (hp : p.turn.input ≠ .timeout missionId) : AwaitedSince e₀ missionId (p :: ps) t

namespace Registers

variable {w : Outlook} {f : Facts} {r r' : Registers} {i : Input} {o : Option Order}

theorem Outcome.failed_timeout (h : Outcome w r o r') (hp : r'.phase = .failed .timeout) :
    r.phase = .failed .timeout ∧ r'.watch = r.watch := by
  cases h with
  | sent | cleaning => exact ⟨hp, rfl⟩
  | grounded | rejected | canceled => cases hp

/-- The run is given up for want of an answer only by a timeout of the mission waited for. -/
theorem Move.gives_up (hm : Move w f r i r') (hp : r'.phase = .failed .timeout)
    (hn : r.phase ≠ .failed .timeout ∨ r.watch ≠ .none ∧ r'.watch = .none) :
    ∃ missionId, i = .timeout missionId ∧ r.loaded = some missionId ∧
      r.watch = .activating missionId := by
  have hsame (hphase : r.phase = .failed .timeout) (hwatch : r'.watch = r.watch) : False := by
    rcases hn with hn | ⟨hne, hn⟩
    · exact hn hphase
    · exact hne (hwatch.symm.trans hn)
  have hactivating {missionId : String} (hphase : r.phase = .failed .timeout)
      (hwatch : r'.watch = .activating missionId) : False := by
    rcases hn with hn | ⟨-, hn⟩
    · exact hn hphase
    · cases hwatch.symm.trans hn
  cases hm with
  | timeout hl hw => exact ⟨_, rfl, hl, hw⟩
  | stay | quiet | rest | unsettled | drop => exact (hsame hp rfl).elim
  | attempt _ _ _ ho => exact (hactivating (ho.failed_timeout hp).1 (ho.failed_timeout hp).2).elim
  | defer => exact (hactivating hp rfl).elim
  | settled _ _ _ ho => exact (hsame (ho.failed_timeout hp).1 (ho.failed_timeout hp).2).elim
  | cleaned _ _ ho => exact (hsame (ho.failed_timeout hp).1 (ho.failed_timeout hp).2).elim
  | pause h => exact absurd (h.symm.trans hp) (by decide)
  | load | unload | empty | unready | stop | catchUp | lose | hold | finish | start | abandon | goHome
  | exhausted | canceled => cases hp

end Registers

namespace Engine

variable {e e' : Engine} {w : Outlook} {i : Input} {log : List Effect} {missionId : String}

theorem registers_step_timeout (hs : e.step w (.timeout missionId) = .ok (e', log))
    (hl : e.registers.loaded = some missionId) (hw : e.registers.watch = .activating missionId) :
    e'.registers.phase = .failed .timeout ∧ e'.registers.watch = .none := by
  obtain ⟨e₁, hh, rfl, -⟩ := handle_of_step hs
  cases hh
  have hcond : ({ e with log := [] } : Engine).missionId? = some missionId ∧
      ({ e with log := [] } : Engine).watch.activatingId? = some missionId :=
    ⟨hl, (Watch.activatingId?_eq_some_iff _ _).mpr hw⟩
  show (timeout _ w missionId).registers.phase = _ ∧ (timeout _ w missionId).registers.watch = _
  unfold timeout
  rw [if_pos hcond, registers_setState, registers_setWatch]
  exact ⟨rfl, rfl⟩

/-- The time that the aircraft has to answer an activation, in milliseconds. -/
def window (e : Engine) : Nat :=
  e.settings.timeoutSeconds * 1000

/-- A mission is waited for only if the pilot asks. -/
theorem asks_of_activating {t : Turn} (hc : e.registers.Coherent)
    (hs : e.step t.outlook t.input = .ok (e', t.effects))
    (hn : e.watch.activatingId? ≠ some missionId) (h : e'.watch.activatingId? = some missionId) :
    t.asks = true := by
  by_contra hasks
  have hm := move_step hc.backed hs
  have hasked (restart : Bool) : ¬ e.registers.Asked t.input restart :=
    Registers.not_asked (Bool.eq_false_iff.mpr hasks)
  have hw := hm.watch_eq hasked ((Watch.activatingId?_eq_some_iff _ _).mp h)
  exact hn ((Watch.activatingId?_eq_some_iff _ _).mpr hw)

end Engine

namespace Service

variable {s s₁ s' : Service} {i : Input} {rig : Rig} {log : List Effect}

theorem exists_handOver (s : Service) : ∃ unsaved, s.handOver.engine = { s.engine with unsaved } ∧
    s.handOver.deadline = s.deadline ∧ s.handOver.now = s.now := by
  unfold handOver
  split
  · exact ⟨s.engine.unsaved, rfl, rfl, rfl⟩
  · exact ⟨none, rfl, rfl, rfl⟩

/-- What an input leaves of the service as far as its deadline matters. -/
theorem exists_handle (hr : s.isRunning = true) (hg : s.rig.give i = .ok (rig, log)) :
    ∃ unsaved, (s.handle i).engine = { rig.engine with unsaved } ∧
      (s.handle i).deadline
        = armDeadline rig.engine.watch.activatingId? s.deadline (s.now + rig.engine.window) := by
  let d : Service := { s with rig, log := log.reverseAux s.log }
  obtain ⟨unsaved, hengine, hdeadline, hnow⟩ := d.exists_handOver
  have hh : s.handle i = d.handOver.armTimers := by
    unfold handle
    rw [if_pos hr, hg]
  refine ⟨unsaved, ?_, ?_⟩
  · rw [hh]
    exact hengine
  · rw [hh]
    show armDeadline d.handOver.engine.watch.activatingId? d.handOver.deadline
      (d.handOver.now + d.handOver.engine.settings.timeoutSeconds * 1000) = _
    rw [hengine, hdeadline, hnow]
    rfl

/-- The deadline is that of the mission waited for. -/
theorem missionId_armDeadline (activating : Option String) (d : Option Deadline) (next : Nat) :
    (armDeadline activating d next).map (·.missionId) = activating := by
  unfold armDeadline
  cases activating with
  | none => rfl
  | some missionId =>
    cases d with
    | none => rfl
    | some d =>
      by_cases hd : d.missionId = missionId
      · simp [hd]
      · simp [hd]

theorem armDeadline_of_eq {d : Deadline} {missionId : String} (h : d.missionId = missionId)
    (next : Nat) : armDeadline (some missionId) (some d) next = some d :=
  congrArg some (if_pos h)

theorem armDeadline_of_ne {d : Option Deadline} {missionId : String}
    (h : d.map (·.missionId) ≠ some missionId) (next : Nat) :
    armDeadline (some missionId) d next = some ⟨missionId, next⟩ := by
  cases d with
  | none => rfl
  | some d => exact congrArg some (if_neg fun hd => h (congrArg some hd))

end Service

open Service (armDeadline)

/-- What is kept along a schedule: the deadline of the mission waited for is so much later than the
time since when it is. -/
structure Timely (e₀ : Engine) (ps : List Pass) (s : Service) : Prop where
  coherent : s.engine.registers.Coherent
  agrees : ∃ e₁ : Engine, e₁.Agrees s.engine
  settings : s.engine.settings = e₀.settings
  activating : s.deadline.map (·.missionId) = s.engine.watch.activatingId?
  since : ∀ missionId due, s.deadline = some ⟨missionId, due⟩ ↔
    ∃ t, AwaitedSince e₀ missionId ps t ∧ due = t + e₀.window

theorem AwaitedSince.activating {e₀ : Engine} {missionId : String} {p : Pass} {ps : List Pass}
    {t : Nat} (h : AwaitedSince e₀ missionId (p :: ps) t) :
    p.after.watch.activatingId? = some missionId := by
  cases h with
  | begins h | goesOn _ h => exact h

namespace Timely

variable {e₀ : Engine} {ps : List Pass} {s s₁ : Service} {i : Input} {rig : Rig}
  {log : List Effect}

theorem begin (rig : Rig) (archive : Option Archive) (hr : rig.engine.Reachable) :
    Timely rig.engine [] (Service.start rig archive).armTimers where
  coherent := hr.coherent
  agrees := hr.agrees
  settings := rfl
  activating := Service.missionId_armDeadline _ none _
  since := by
    intro missionId due
    show armDeadline rig.engine.watch.activatingId? none (0 + rig.engine.window) = _ ↔ _
    constructor
    · intro hd
      have hid : rig.engine.watch.activatingId? = some missionId := by
        have := Service.missionId_armDeadline rig.engine.watch.activatingId? none
          (0 + rig.engine.window)
        rw [← this, hd]
        rfl
      rw [hid] at hd
      cases hd
      exact ⟨0, .start hid, rfl⟩
    · rintro ⟨t, ⟨hid⟩, rfl⟩
      rw [hid]
      rfl

theorem sleep (h : Timely e₀ ps s) {s' : Service} (hs : s.Sleeps s') : Timely e₀ ps s' where
  coherent := hs.engine ▸ h.coherent
  agrees := hs.engine ▸ h.agrees
  settings := hs.engine ▸ h.settings
  activating := by
    rw [hs.deadline, hs.engine]
    exact h.activating
  since := hs.deadline ▸ h.since

/-- The deadline after a pass: it stands, or it is a new one. -/
theorem since_pass (h : Timely e₀ ps s) {e' : Engine} {d : Option Deadline}
    (hs : s.engine.step s.rig.outlook i = .ok (e', log)) (ht : s.Takes i d) (missionId : String)
    (due : Nat) :
    armDeadline e'.watch.activatingId? d (s.now + e₀.window) = some ⟨missionId, due⟩ ↔
      ∃ t, AwaitedSince e₀ missionId (⟨s.now, ⟨s.rig.outlook, i, log⟩, s.engine, e'⟩ :: ps) t ∧
        due = t + e₀.window := by
  have hactivating := h.activating
  by_cases hafter : e'.watch.activatingId? = some missionId
  swap
  · refine ⟨fun hd => absurd ?_ hafter, fun ⟨t, hsince, _⟩ => absurd hsince.activating hafter⟩
    have := Service.missionId_armDeadline e'.watch.activatingId? d (s.now + e₀.window)
    rw [← this, hd]
    rfl
  rw [hafter]
  by_cases hd : d.map (·.missionId) = some missionId
  · -- The deadline stands, and the engine has been waiting before.
    obtain ⟨d, rfl, hid⟩ := Option.map_eq_some_iff.mp hd
    rw [Service.armDeadline_of_eq hid]
    generalize hdeadline : some d = o at ht
    cases ht with
    | deadline => cases hdeadline
    | other hne =>
      have hwaits : s.engine.watch.activatingId? = some missionId := by
        rw [← hactivating, ← hdeadline, Option.map_some, hid]
      rw [h.since]
      refine exists_congr fun t => and_congr_left fun _ => ⟨fun past => ?_, fun hsince => ?_⟩
      · exact .goesOn past hafter (hne missionId)
      · cases hsince with
        | begins _ hp =>
          rcases hp with hp | hp
          · exact absurd hwaits hp.2
          · exact absurd hp (hne missionId)
        | goesOn past => exact past
  · -- It is a new one: the pilot has asked, or the one before is over.
    rw [Service.armDeadline_of_ne hd]
    constructor
    · intro heq
      obtain rfl : s.now + e₀.window = due := congrArg Deadline.due (Option.some.inj heq)
      refine ⟨s.now, .begins hafter ?_, rfl⟩
      by_cases hwaits : s.engine.watch.activatingId? = some missionId
      · right
        cases ht with
        | other => exact absurd (hactivating.trans hwaits) hd
        | deadline hd' =>
          rw [hd', hwaits] at hactivating
          exact congrArg Input.timeout (Option.some.inj hactivating)
      · left
        exact ⟨Engine.asks_of_activating (t := ⟨_, i, log⟩) h.coherent hs hwaits hafter, hwaits⟩
    · rintro ⟨t, hsince, rfl⟩
      cases hsince with
      | begins => rfl
      | goesOn past _ hne =>
        have hdeadline := (h.since missionId _).mpr ⟨t, past, rfl⟩
        cases ht with
        | other => exact absurd (congrArg (Option.map (·.missionId)) hdeadline) hd
        | deadline hd' =>
          obtain rfl := Option.some.inj (hd'.symm.trans hdeadline)
          exact absurd rfl hne

theorem pass (h : Timely e₀ ps s) (hr : s.isRunning = true) (ht : s.take? i = some s₁)
    (hg : s.rig.give i = .ok (rig, log)) :
    Timely e₀ (⟨s.now, ⟨s.rig.outlook, i, log⟩, s.engine, rig.engine⟩ :: ps) (s₁.handle i) := by
  obtain ⟨hrig, hrunning, hnow, htakes⟩ := Service.takes_of_take? ht
  obtain ⟨unsaved, hengine, hdeadline⟩ :=
    Service.exists_handle (hrunning.trans hr) (hrig.symm ▸ hg)
  have hs : s.engine.step s.rig.outlook i = .ok (rig.engine, log) := Service.engine_of_give hg
  obtain ⟨e₁, ha⟩ := h.agrees
  have hsettings : rig.engine.settings = e₀.settings :=
    (Engine.settings_step ha h.coherent hs).trans h.settings
  have hwindow : rig.engine.window = e₀.window := congrArg (·.timeoutSeconds * 1000) hsettings
  refine ⟨?_, ?_, ?_, ?_, ?_⟩
  · rw [hengine]
    show rig.engine.registers.Coherent
    exact h.coherent.move (Engine.move_step h.coherent.backed hs)
  · obtain ⟨e₂, hrig, -, ha₂⟩ := Engine.agrees_step ha h.coherent hs
    rw [hengine, hrig]
    have ha₃ := ha₂.restart
    exact ⟨_, ⟨{ ha₃.tracks with }, ha₃.carries⟩⟩
  · rw [hengine]
    exact hsettings
  · rw [hengine, hdeadline]
    exact Service.missionId_armDeadline _ _ _
  · intro missionId due
    rw [hdeadline, hnow, hwindow]
    exact h.since_pass hs htakes missionId due

end Timely

namespace Pass

theorem givesUp_iff (p : Pass) :
    p.GivesUp ↔ p.after.registers.phase = .failed .timeout ∧
      (p.before.registers.phase ≠ .failed .timeout ∨
        p.before.registers.watch ≠ .none ∧ p.after.registers.watch = .none) := by
  unfold GivesUp
  rw [Ne, State.eq_failed_iff, State.eq_failed_iff, Ne, Watch.eq_none_iff, Watch.eq_none_iff]
  rfl

end Pass

namespace Schedule

variable {rig : Rig} {archive : Option Archive} {s₀ s : Service} {p : Pass} {ps : List Pass}

theorem timely (h : Schedule (Service.start rig archive).armTimers ps s)
    (hr : rig.engine.Reachable) : s.isRunning = true → Timely rig.engine ps s := by
  induction h with
  | here => exact fun _ => .begin rig archive hr
  | pass _ running taken given ih => exact fun _ => (ih running).pass running taken given
  | sleep _ h ih =>
    intro running
    have hs := h running
    exact (ih (hs.isRunning ▸ running)).sleep hs

/-- **When a run is given up for want of an answer.**  It is when the deadline of the mission that
is loaded is over, and that is the whole time after the engine has begun to wait for the mission to
be taken up.  An activation that is sent later than that has less. -/
theorem gives_up_iff (h : Schedule (Service.start rig archive).armTimers (p :: ps) s)
    (hr : rig.engine.Reachable) :
    p.GivesUp ↔ ∃ missionId t, p.turn.input = .timeout missionId ∧
      p.before.missionId? = some missionId ∧ AwaitedSince rig.engine missionId ps t ∧
      t + rig.engine.window ≤ p.time ∧
      ∀ q ∈ ps, q.Activates → p.time < q.time + rig.engine.window → t < q.time := by
  obtain ⟨s, i, s₁, rig', log, past, running, taken, given, rfl⟩ := h.exists_pass
  have htimely := past.timely hr running
  have hs : s.engine.step s.rig.outlook i = .ok (rig'.engine, log) := Service.engine_of_give given
  obtain ⟨-, -, -, htakes⟩ := Service.takes_of_take? taken
  generalize s₁.deadline = d at htakes
  rw [Pass.givesUp_iff]
  constructor
  · rintro ⟨hp, hn⟩
    obtain ⟨missionId, rfl, hl, hw⟩ :=
      (Engine.move_step htimely.coherent.backed hs).gives_up hp hn
    cases htakes with
    | other hne => exact absurd rfl (hne _)
    | @deadline d hd hdue =>
      obtain ⟨t, hsince, hlate⟩ := (htimely.since d.missionId d.due).mp hd
      have hle : t + rig.engine.window ≤ s.now := hlate ▸ hdue
      refine ⟨d.missionId, t, rfl, hl, hsince, hle, fun q _ _ hlt => ?_⟩
      have hlt : s.now < q.time + rig.engine.window := hlt
      omega
  · rintro ⟨missionId, t, rfl, hl, hsince, -, -⟩
    have hd := (htimely.since missionId _).mpr ⟨t, hsince, rfl⟩
    have hw : s.engine.registers.watch = .activating missionId := by
      refine (Watch.activatingId?_eq_some_iff _ _).mp ?_
      rw [← htimely.activating, hd]
      rfl
    obtain ⟨hphase, hnone⟩ := Engine.registers_step_timeout hs hl hw
    refine ⟨hphase, .inr ⟨fun hn => ?_, hnone⟩⟩
    cases hw.symm.trans hn

end Schedule

/-- A rig whose camera is looked at every twenty seconds. -/
def patient : Rig where
  engine := { settings := { pollMillis := 20000 } }

/-- The sample is played while the camera is busy.  After nine seconds the camera settles, and the
aircraft does not answer. -/
def unanswered : List Pass × Service :=
  [(0, reportIdle), (0, .wish (.setup sample [])), (0, .wish .play),
    (9000, .notice (.camera .ready)), (21000, .timeout "field")].foldl rehearse
      ([], (Service.start patient none).armTimers)

theorem schedule_unanswered :
    Schedule (Service.start patient none).armTimers unanswered.1 unanswered.2 :=
  schedule_foldl_rehearse _ .here

theorem reachable_patient : patient.engine.Reachable :=
  ⟨_, [], .fresh⟩

theorem exists_unanswered :
    ∃ p q earlier, unanswered.1 = p :: q :: earlier ∧ p.GivesUp ∧ q.Activates ∧
      p.time = 30000 ∧ q.time = 9000 := by
  have htimes : unanswered.1.map (·.time) = [30000, 9000, 0, 0, 0] := by decide +kernel
  have hphases : unanswered.1.head?.map (fun p => (p.before.registers.phase, p.after.registers.phase))
      = some (.idle, .failed .timeout) := by decide +kernel
  have hactivates : unanswered.1.map (fun p => decide p.Activates)
      = [false, true, false, false, false] := by decide +kernel
  generalize unanswered.1 = passes at *
  rcases passes with _ | ⟨p, _ | ⟨q, earlier⟩⟩
  · cases htimes
  · cases congrArg List.length htimes
  · simp only [List.map_cons, List.cons.injEq] at htimes hactivates
    have hphases := Option.some.inj hphases
    have hbefore : p.before.registers.phase = .idle := congrArg Prod.fst hphases
    have hafter : p.after.registers.phase = .failed .timeout := congrArg Prod.snd hphases
    refine ⟨p, q, earlier, rfl, p.givesUp_iff.mpr ⟨hafter, .inl ?_⟩,
      of_decide_eq_true hactivates.2.1, htimes.1, htimes.2.1⟩
    rw [hbefore]
    decide

theorem gives_up_unanswered :
    ∃ p q earlier s, Schedule (Service.start patient none).armTimers (p :: q :: earlier) s ∧
      patient.engine.Reachable ∧ p.GivesUp ∧ q.Activates ∧ p.time = q.time + 21000 ∧
      ∃ missionId t, AwaitedSince patient.engine missionId (q :: earlier) t ∧
        t + 30000 ≤ p.time ∧ t < q.time := by
  obtain ⟨p, q, earlier, hpasses, hgives, hactivates, hp, hq⟩ := exists_unanswered
  have h := schedule_unanswered
  rw [hpasses] at h
  obtain ⟨missionId, t, -, -, hsince, hle, hlater⟩ := (h.gives_up_iff reachable_patient).mp hgives
  refine ⟨p, q, earlier, _, h, reachable_patient, hgives, hactivates, by rw [hp, hq], missionId, t,
    hsince, hle, hlater q List.mem_cons_self hactivates ?_⟩
  rw [hp, hq]
  decide

/-- An activation can be given up before its time is over, though it is not asked for again. -/
theorem not_forall_window :
    ¬ ∀ (rig : Rig) (archive : Option Archive) (p q : Pass) (later earlier : List Pass) (s : Service),
      0 < rig.engine.settings.tickMillis → 0 < rig.engine.settings.pollMillis →
      rig.engine.Reachable →
      Schedule (Service.start rig archive).armTimers (p :: (later ++ q :: earlier)) s →
      (∀ x ∈ later, x.turn.asks = false) → q.Activates → p.GivesUp →
      q.time + rig.engine.window ≤ p.time := by
  intro hall
  obtain ⟨p, q, earlier, hpasses, hgives, hactivates, hp, hq⟩ := exists_unanswered
  have h := schedule_unanswered
  rw [hpasses] at h
  have htick : 0 < patient.engine.settings.tickMillis := by decide
  have hpoll : 0 < patient.engine.settings.pollMillis := by decide
  have hle : q.time + patient.engine.window ≤ p.time :=
    hall patient none p q [] earlier unanswered.2 htick hpoll reachable_patient h
      (fun x hx => absurd hx List.not_mem_nil) hactivates hgives
  have hw : patient.engine.window = 30000 := rfl
  omega

end Sortie.Run
