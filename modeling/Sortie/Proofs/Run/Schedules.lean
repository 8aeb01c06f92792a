import Sortie.Proofs.Run.Keeping

/-!
# Schedules of the service

A `Schedule` lists the passes of the service's loop, the latest first, each with its time.  It leaves
open when the loop wakes up and which of the inputs that are there it takes up, so an alarm can be
late, but it is never early (`Service.take?`).  What happens to the service between two passes is
left open as well, as long as the loop does not know of it.

The operations of the service are schedules (`Service.leads_give`, `leads_stir`, …), and `rehearse`
computes the schedule of given calls.
-/

namespace Sortie.Run

/-- A pass of the loop. -/
structure Pass where
  time : Nat
  turn : Turn
  before : Engine
  after : Engine

namespace Service

/-- The service that takes up an input, if the input is there by now. -/
def take? (s : Service) : Input → Option Service
  | .wish _ | .notice _ => some s
  | .tick =>
    if s.tickDue.any (· ≤ s.now) then
      some { s with tickDue := some (s.now + s.engine.settings.tickMillis) }
    else none
  | .poll =>
    if s.pollDue.any (· ≤ s.now) then
      some { s with pollDue := some (s.now + s.engine.settings.pollMillis) }
    else none
  | .timeout missionId =>
    if s.deadline.any fun d => d.missionId = missionId ∧ d.due ≤ s.now then
      some { s with deadline := none }
    else none

/-- The loop sleeps: time passes, or something happens that it does not know of. -/
structure Sleeps (s s' : Service) : Prop where
  engine : s'.engine = s.engine
  tickDue : s'.tickDue = s.tickDue
  pollDue : s'.pollDue = s.pollDue
  deadline : s'.deadline = s.deadline
  isRunning : s'.isRunning = s.isRunning

end Service

/-- The passes of the loop from a service on, the latest first.  A service that does not run any more
takes up nothing, whatever becomes of it. -/
inductive Schedule (s₀ : Service) : List Pass → Service → Prop
  | here : Schedule s₀ [] s₀
  | pass {ps : List Pass} {s s₁ : Service} {i : Input} {rig : Rig} {log : List Effect}
      (past : Schedule s₀ ps s) (running : s.isRunning = true) (taken : s.take? i = some s₁)
      (given : s.rig.give i = .ok (rig, log)) :
      Schedule s₀ (⟨s.now, ⟨s.rig.outlook, i, log⟩, s.engine, rig.engine⟩ :: ps) (s₁.handle i)
  | sleep {ps : List Pass} {s s' : Service} (past : Schedule s₀ ps s)
      (h : s'.isRunning = true → s.Sleeps s') : Schedule s₀ ps s'

theorem Schedule.exists_pass {s₀ s : Service} {p : Pass} {ps : List Pass}
    (h : Schedule s₀ (p :: ps) s) :
    ∃ s i s₁ rig log, Schedule s₀ ps s ∧ s.isRunning = true ∧ s.take? i = some s₁ ∧
      s.rig.give i = .ok (rig, log) ∧
      p = ⟨s.now, ⟨s.rig.outlook, i, log⟩, s.engine, rig.engine⟩ := by
  generalize hps : p :: ps = passes at h
  induction h with
  | here => cases hps
  | pass past running taken given =>
    cases hps
    exact ⟨_, _, _, _, _, past, running, taken, given, rfl⟩
  | sleep _ _ ih => exact ih hps

namespace Service

variable {s s₁ s₂ s' : Service} {i : Input} {a : Alarm} {due : Nat}

/-- A service that takes up an input keeps its deadline unless that is over. -/
inductive Takes (s : Service) : Input → Option Deadline → Prop
  | other {i : Input} (h : ∀ missionId, i ≠ .timeout missionId) : Takes s i s.deadline
  | deadline {d : Deadline} (h : s.deadline = some d) (hd : d.due ≤ s.now) :
      Takes s (.timeout d.missionId) none

theorem takes_of_take? (h : s.take? i = some s₁) :
    s₁.rig = s.rig ∧ s₁.isRunning = s.isRunning ∧ s₁.now = s.now ∧ s.Takes i s₁.deadline := by
  cases i with
  | wish | notice =>
    obtain rfl := Option.some.inj h
    exact ⟨rfl, rfl, rfl, .other nofun⟩
  | tick | poll =>
    simp only [take?, Option.ite_none_right_eq_some, Option.some.injEq] at h
    obtain ⟨-, rfl⟩ := h
    exact ⟨rfl, rfl, rfl, .other nofun⟩
  | timeout missionId =>
    simp only [take?, Option.ite_none_right_eq_some, Option.some.injEq] at h
    obtain ⟨hdue, rfl⟩ := h
    obtain ⟨d, hd, hover⟩ := (Option.any_eq_true ..).mp hdue
    have hboth : d.missionId = missionId ∧ d.due ≤ s.now := of_decide_eq_true hover
    obtain ⟨rfl, hlate⟩ := hboth
    exact ⟨rfl, rfl, rfl, .deadline hd hlate⟩

/-! ### The operations of the service -/

/-- The loop gets from one service to another. -/
def Leads (s s' : Service) : Prop :=
  ∃ ps, Schedule s ps s'

theorem Leads.trans (h : s.Leads s₁) (h' : s₁.Leads s₂) : s.Leads s₂ := by
  obtain ⟨ps, h⟩ := h
  obtain ⟨qs, h'⟩ := h'
  refine ⟨qs ++ ps, ?_⟩
  induction h' with
  | here => exact h
  | pass _ running taken given ih => exact ih.pass running taken given
  | sleep _ h' ih => exact ih.sleep h'

theorem leads_of_sleeps (h : s.Sleeps s') : s.Leads s' :=
  ⟨[], .sleep .here fun _ => h⟩

theorem leads_of_stopped (h : s'.isRunning = false) : s.Leads s' :=
  ⟨[], .sleep .here fun running => absurd (h.symm.trans running) Bool.false_ne_true⟩

theorem leads_handle (h : s.take? i = some s₁) : s.Leads (s₁.handle i) := by
  obtain ⟨hrig, hrunning, -, -⟩ := takes_of_take? h
  by_cases hr : s.isRunning = true
  · cases hg : s.rig.give i with
    | ok next =>
      obtain ⟨rig, log⟩ := next
      exact ⟨_, .pass .here hr h hg⟩
    | error fault =>
      refine leads_of_stopped ?_
      unfold handle
      rw [if_pos (hrunning.trans hr), hrig, hg]
  · refine leads_of_stopped ?_
    unfold handle
    rw [if_neg fun hn => hr (hrunning.symm.trans hn), hrunning]
    exact Bool.not_eq_true _ ▸ hr

theorem leads_answer (limit : Nat) : s.Leads (s.answer limit) := by
  induction limit generalizing s with
  | zero => exact leads_of_sleeps ⟨rfl, rfl, rfl, rfl, rfl⟩
  | succ limit ih =>
    unfold answer
    split
    · exact leads_of_sleeps ⟨rfl, rfl, rfl, rfl, rfl⟩
    · next n waiting _ =>
      let s₁ : Service := { s with rig := { s.rig with aircraft := { s.rig.aircraft with waiting } } }
      have hsleep : s.Leads s₁ := leads_of_sleeps ⟨rfl, rfl, rfl, rfl, rfl⟩
      have hhandle : s₁.Leads (s₁.handle (.notice n)) := leads_handle rfl
      exact (hsleep.trans hhandle).trans ih

/-- An alarm that is due is an input to be taken up. -/
theorem exists_take_of_due (hd : s.due? a = some due) (hle : due ≤ s.now) :
    ∃ i s₁, s.take? i = some s₁ ∧ s.fire a = s₁.handle i := by
  cases a with
  | tick =>
    refine ⟨.tick, _, if_pos ?_, rfl⟩
    exact (Option.any_eq_true ..).mpr ⟨due, hd, decide_eq_true hle⟩
  | poll =>
    refine ⟨.poll, _, if_pos ?_, rfl⟩
    exact (Option.any_eq_true ..).mpr ⟨due, hd, decide_eq_true hle⟩
  | deadline =>
    obtain ⟨d, hdeadline, rfl⟩ := Option.map_eq_some_iff.mp hd
    refine ⟨.timeout d.missionId, { s with deadline := none }, if_pos ?_, ?_⟩
    · exact (Option.any_eq_true ..).mpr ⟨d, hdeadline, decide_eq_true ⟨rfl, hle⟩⟩
    · simp only [fire, hdeadline]

theorem due_of_next? (h : s.next? = some (a, due)) : s.due? a = some due := by
  unfold next? at h
  extract_lets sooner at h
  -- The sooner of two alarms is one of them.
  have hsooner (b : Alarm) (first : Option (Alarm × Nat))
      (hfirst : ∀ c d, first = some (c, d) → s.due? c = some d) :
      ∀ c d, sooner b first = some (c, d) → s.due? c = some d := by
    intro c d heq
    simp only [sooner] at heq
    split at heq
    · next hb =>
      split at heq
      · cases heq
        exact hb
      · exact hfirst c d heq
    · next hb =>
      cases heq
      exact hb
    · exact hfirst c d heq
  refine hsooner .tick _ ?_ a due h
  exact hsooner .poll _ (hsooner .deadline none nofun)

theorem leads_advance (target limit : Nat) : s.Leads (s.advance target limit) := by
  have hsleep (s : Service) (now : Nat) : s.Leads { s with now } :=
    leads_of_sleeps ⟨rfl, rfl, rfl, rfl, rfl⟩
  induction limit generalizing s with
  | zero => exact hsleep s target
  | succ limit ih =>
    unfold advance
    split
    · exact hsleep s target
    · next a due hnext =>
      split
      · obtain ⟨i, s₁, ht, hfire⟩ :=
          exists_take_of_due (s := { s with now := due }) (due_of_next? hnext) (Nat.le_refl due)
        rw [hfire]
        exact (((hsleep s due).trans (leads_handle ht)).trans (leads_answer _)).trans ih
      · exact hsleep s target

theorem leads_keep (s : Service) (isSaved : Bool) : s.Leads (s.keep isSaved) := by
  refine leads_of_sleeps ?_
  unfold keep
  split <;> exact ⟨rfl, rfl, rfl, rfl, rfl⟩

theorem leads_keepAll (s : Service) : s.Leads s.keepAll := by
  unfold keepAll
  generalize s.outbox = xs
  induction xs generalizing s with
  | nil => exact leads_of_sleeps ⟨rfl, rfl, rfl, rfl, rfl⟩
  | cons x xs ih => exact (s.leads_keep true).trans (ih _)

theorem leads_wait (s : Service) (millis : Nat) : s.Leads (s.wait millis) :=
  (leads_advance _ _).trans (leads_keepAll _)

/-- **Whatever a service is given, it goes through a schedule.** -/
theorem leads_give (s : Service) {i : Input} (h : s.take? i = some s) : s.Leads (s.give i) :=
  ((leads_handle h).trans (leads_answer _)).trans (leads_wait _ 0)

theorem leads_stir (s : Service) (f : Simulator → Simulator) : s.Leads (s.stir f) := by
  let s₁ : Service := { s with rig := { s.rig with aircraft := f s.rig.aircraft } }
  have hsleep : s.Leads s₁ := leads_of_sleeps ⟨rfl, rfl, rfl, rfl, rfl⟩
  exact (hsleep.trans (leads_answer _)).trans (leads_wait _ 0)

theorem leads_stop (s : Service) : s.Leads s.stop :=
  leads_of_stopped rfl

end Service

/-! ### Rehearsals -/

/-- The schedule with one pass more, after so long a time.  An input that is not there by then is
passed over. -/
def rehearse (past : List Pass × Service) (call : Nat × Input) : List Pass × Service :=
  let s : Service := { past.2 with now := past.2.now + call.1 }
  match s.take? call.2, s.rig.give call.2 with
  | some s₁, .ok (rig, log) =>
    if s.isRunning then
      (⟨s.now, ⟨s.rig.outlook, call.2, log⟩, s.engine, rig.engine⟩ :: past.1, s₁.handle call.2)
    else past
  | _, _ => past

theorem schedule_rehearse {s₀ : Service} {past : List Pass × Service}
    (h : Schedule s₀ past.1 past.2) (call : Nat × Input) :
    Schedule s₀ (rehearse past call).1 (rehearse past call).2 := by
  have hsleep : Schedule s₀ past.1 { past.2 with now := past.2.now + call.1 } :=
    .sleep h fun _ => ⟨rfl, rfl, rfl, rfl, rfl⟩
  unfold rehearse
  dsimp only
  split
  · next taken given =>
    split
    · next running => exact hsleep.pass running taken given
    · exact h
  · exact h

theorem schedule_foldl_rehearse {s₀ : Service} (calls : List (Nat × Input)) :
    ∀ {past : List Pass × Service}, Schedule s₀ past.1 past.2 →
      Schedule s₀ (calls.foldl rehearse past).1 (calls.foldl rehearse past).2 := by
  induction calls with
  | nil => intro past h; exact h
  | cons call calls ih => intro past h; exact ih (schedule_rehearse h call)

end Sortie.Run
