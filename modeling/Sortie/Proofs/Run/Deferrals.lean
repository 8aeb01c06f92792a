import Sortie.Proofs.Run.Agreement
import Sortie.Proofs.Run.Attempts
import Sortie.Proofs.Run.Failures

/-!
# Attempts that wait for the camera

An attempt that is put off until the camera has settled does not wait for ever.  Only the pilot has
one put off, so from then on there are two ways for it: a notice of a settled camera has it taken
up, or looks at the busy camera are counted until there are too many (`Reachable.settling_step`).
Along a sequel in which the pilot does not ask, what still waits has counted every look
(`Sequel.settling`), and what was taken up waits no more (`Sequel.length_takenUp_le`).

`History.waits_until_settled` puts these together.  It also says which activations of the sequel are
of the attempt that waited: all but those that follow from deleted media.
-/

namespace Sortie.Run

/-- It is time to look at the camera. -/
def Turn.polls (t : Turn) : Bool :=
  match t.input with
  | .poll => true
  | .wish _ | .notice _ | .tick | .timeout _ => false

theorem Turn.eq_poll {t : Turn} (h : t.polls = true) : t.input = .poll := by
  obtain ⟨w, i, log⟩ := t
  cases i with
  | poll => rfl
  | wish | notice | tick | timeout => cases h

/-- The camera is looked at when it is time to, or when it is reported. -/
theorem Input.eq_of_looks {i : Input} (h : i.looks = true) :
    i = .poll ∨ ∃ camera, i = .notice (.camera camera) := by
  cases i with
  | poll => exact .inl rfl
  | notice n =>
    cases n with
    | camera camera => exact .inr ⟨camera, rfl⟩
    | interface | returnHome | connection | landed | position | cleanedUp => cases h
  | wish | tick | timeout => cases h

namespace Settling

/-- What waits once the camera was found busy so often more. -/
def after (s : Settling) (looks : Nat) : Settling :=
  { s with attempts := s.attempts + looks }

@[simp] theorem after_zero (s : Settling) : s.after 0 = s := rfl

theorem after_after (s : Settling) (m n : Nat) : (s.after m).after n = s.after (m + n) := by
  simp only [after, Nat.add_assoc]

theorem cause_after (s : Settling) (n : Nat) : (s.after n).cause = s.cause := rfl

end Settling

namespace Registers

variable {w : Outlook} {f : Facts} {r r' : Registers} {i : Input}

/-- Without a wish for it and without a look at the camera nothing is put off anew. -/
theorem Move.settling_eq (hm : Move w f r i r') (ha : ∀ restart, ¬ r.Asked i restart)
    (hi : i ≠ .poll) {s : Settling} (hs : r'.settling = some s) : r.settling = some s := by
  cases hm with
  | stay | empty | unready | rest | hold | goHome | drop => exact hs
  | attempt hask | defer hask => exact absurd hask (ha _)
  | settled _ _ _ ho =>
    have hsome : (none : Option Settling).isSome = true :=
      ho.settling_isSome (by rw [hs]; rfl)
    cases hsome
  | cleaned _ _ ho =>
    cases ho with
    | sent => exact hs
    | rejected => cases hs
  | unsettled | exhausted => exact absurd rfl hi
  | load | unload | pause | quiet | stop | catchUp | lose | finish | start | abandon | canceled
  | timeout => cases hs

end Registers

namespace Engine

variable {e e' : Engine} {w : Outlook} {i : Input} {log : List Effect}

/-! ### Looks at the camera -/

/-- A look at a busy camera is counted, and the last one that is allowed ends the wait. -/
theorem settling_poll (hc : e.settling.isSome = true → e.facts.camera.isSettled = false)
    {s : Settling} (hs : (e.poll w).settling = some s) :
    ∃ s₀, e.settling = some s₀ ∧ s = s₀.after 1 ∧ s.attempts < e.settings.pollLimit := by
  unfold poll at hs
  cases hsome : e.settling with
  | none =>
    rw [hsome] at hs
    cases hsome.symm.trans hs
  | some s₀ =>
    rw [hsome] at hs
    dsimp only at hs
    rw [hc (by rw [hsome]; rfl), if_neg Bool.false_ne_true] at hs
    split at hs
    · have hfail := congrArg Registers.settling (registers_fail e .cameraNotSettled)
      cases hfail.symm.trans hs
    · next hlimit =>
      obtain rfl : s₀.after 1 = s := Option.some.inj hs
      exact ⟨s₀, rfl, rfl, Nat.lt_of_not_le hlimit⟩

/-- Time alone never has an attempt taken up. -/
theorem Reachable.cause?_poll (h : e.Reachable) : e.cause? .poll = none := by
  cases hc : e.cause? .poll with
  | none => rfl
  | some c =>
    cases due_of_cause? hc with
    | settled _ hs hsettled =>
      have hbusy := h.busy_of_settling (by rw [hs]; rfl)
      cases hbusy.symm.trans hsettled

theorem Reachable.sent_poll (h : e.Reachable) (hs : e.step w .poll = .ok (e', log)) :
    sent log = [] := by
  rw [sent_step hs, orders, h.cause?_poll]
  rfl

/-- **What waits after a turn without a wish for it has waited before**, one look less if the turn
is a look at the camera, and then not for too many looks. -/
theorem Reachable.settling_step {t : Turn} (h : e.Reachable) (ha : t.asks = false)
    (hstep : e.step t.outlook t.input = .ok (e', t.effects)) {s : Settling}
    (hs : e'.settling = some s) :
    ∃ s₀, e.settling = some s₀ ∧ s = s₀.after t.polls.toNat ∧
      (t.polls = true → s.attempts < e.settings.pollLimit) := by
  cases hp : t.polls with
  | false =>
    have hi : t.input ≠ .poll := by
      intro hi
      rw [Turn.polls, hi] at hp
      cases hp
    have hm := move_step h.coherent.backed hstep
    exact ⟨s, hm.settling_eq (fun _ => Registers.not_asked ha) hi hs, rfl, nofun⟩
  | true =>
    rw [Turn.eq_poll hp] at hstep
    obtain ⟨e₁, hh, rfl, -⟩ := handle_of_step hstep
    cases hh
    obtain ⟨s₀, hsome, hafter, hlimit⟩ :=
      settling_poll (e := { e with log := [] }) h.busy_of_settling hs
    exact ⟨s₀, hsome, hafter, fun _ => hlimit⟩

/-! ### What is taken up -/

/-- The input has what waits taken up. -/
def takesUp (e : Engine) (i : Input) : Bool :=
  i.looks && e.settling.isSome && (e.facts.learn i).camera.isSettled

theorem takesUp_iff {e : Engine} {i : Input} :
    e.takesUp i = true ↔
      i.looks = true ∧ e.settling.isSome = true ∧ (e.facts.learn i).camera.isSettled = true := by
  simp [takesUp, and_assoc]

/-- What waits is taken up when a settled camera is reported, and then it is attempted. -/
theorem Reachable.step_takesUp {t : Turn} (h : e.Reachable)
    (hstep : e.step t.outlook t.input = .ok (e', t.effects)) {s : Settling}
    (hs : e.settling = some s) (ht : e.takesUp t.input = true) :
    e'.settling = none ∧
      (∃ camera, t.input = .notice (.camera camera) ∧ camera.isSettled = true) ∧
      sent t.effects = (e.attempt? t.outlook s.cause).toList := by
  obtain ⟨hlooks, -, hsettled⟩ := takesUp_iff.mp ht
  have hdue : e.Due t.input s.cause := .settled hlooks hs hsettled
  have hcause := cause?_eq_some_iff.mpr hdue
  refine ⟨?_, ?_, ?_⟩
  · obtain ⟨r, hbegins, hout⟩ := hdue.outcome h.coherent hstep
    generalize hr : e'.registers = r' at hout
    generalize hi : t.input = i at hbegins hlooks
    generalize hcs : s.cause = c at hbegins
    refine (congrArg Registers.settling hr).trans (Option.not_isSome_iff_eq_none.mp fun hn => ?_)
    cases hbegins with
    | settled =>
      have hsome := hout.settling_isSome hn
      cases hsome
    | asked ha => cases ha <;> cases hlooks
    | cleaned => cases hlooks
  · rcases Input.eq_of_looks hlooks with hi | ⟨camera, hi⟩
    · rw [hi, h.cause?_poll] at hcause
      cases hcause
    · refine ⟨camera, hi, ?_⟩
      rw [hi] at hsettled
      exact hsettled
  · have hdirect : e.directOrders t.input = [] := by
      rcases Input.eq_of_looks hlooks with hi | ⟨camera, hi⟩ <;> rw [hi] <;> rfl
    rw [sent_step hstep, orders, hdirect, hcause]
    rfl

/-- The turns, the latest first, in which what waits is taken up. -/
def takenUp (e : Engine) : List Turn → List Turn
  | [] => []
  | t :: ts => if (e.after ts).takesUp t.input then t :: e.takenUp ts else e.takenUp ts

end Engine

open Engine

namespace Sequel

variable {e e' : Engine} {ts : List Turn}

/-- **What still waits has counted every look**, and the looks were not too many. -/
theorem settling (h : Sequel e ts e') (he : e.Reachable) (ha : ∀ t ∈ ts, t.asks = false)
    {s : Settling} (hs : e'.settling = some s) :
    ∃ s₀, e.settling = some s₀ ∧ s = s₀.after (ts.countP Turn.polls) ∧
      (0 < ts.countP Turn.polls → s.attempts < e.settings.pollLimit) := by
  induction h generalizing s with
  | here => exact ⟨s, hs, rfl, nofun⟩
  | @turn ts e₁ e₂ t past now ih =>
    have hr := past.reachable he
    obtain ⟨s₁, hs₁, hlook, hlimit⟩ := hr.settling_step (ha t List.mem_cons_self) now hs
    obtain ⟨s₀, hs₀, hlooks, hearlier⟩ := ih (fun u hu => ha u (List.mem_cons_of_mem t hu)) hs₁
    have hsettings : e₁.settings = e.settings := past.settings_eq he
    refine ⟨s₀, hs₀, ?_, fun hpos => ?_⟩
    · rw [hlook, hlooks, Settling.after_after, List.countP_cons]
      cases t.polls <;> rfl
    · cases hp : t.polls with
      | true => exact hsettings ▸ hlimit hp
      | false =>
        have hsame : s = s₁ := by
          rw [hlook, hp]
          rfl
        rw [List.countP_cons, hp] at hpos
        exact hsame ▸ hearlier hpos

/-- What waits is taken up at most once, and only if it has waited from the first. -/
theorem length_takenUp_le (h : Sequel e ts e') (he : e.Reachable)
    (ha : ∀ t ∈ ts, t.asks = false) :
    (e.takenUp ts).length + e'.settling.isSome.toNat ≤ e.settling.isSome.toNat := by
  induction h with
  | here => exact Nat.le_of_eq (Nat.zero_add _)
  | @turn ts e₁ e₂ t past now ih =>
    have hr := past.reachable he
    have hle := ih fun u hu => ha u (List.mem_cons_of_mem t hu)
    rw [takenUp, past.after_eq]
    split
    · next htakes =>
      obtain ⟨s, hs⟩ := Option.isSome_iff_exists.mp (takesUp_iff.mp htakes).2.1
      obtain ⟨hnone, -, -⟩ := hr.step_takesUp now hs htakes
      rw [hs] at hle
      rw [hnone, List.length_cons]
      exact hle
    · cases hs : e₂.settling with
      | none => exact Nat.le_trans (Nat.add_le_add_left (Nat.zero_le _) _) hle
      | some s =>
        obtain ⟨s₀, hs₀, -⟩ := hr.settling_step (ha t List.mem_cons_self) now hs
        rw [hs₀] at hle
        exact hle

/-- What is taken up is what waited from the first. -/
theorem of_mem_takenUp (h : Sequel e ts e') (he : e.Reachable) (ha : ∀ t ∈ ts, t.asks = false)
    {s : Settling} (hs : e.settling = some s) {t : Turn} (ht : t ∈ e.takenUp ts) :
    (∃ camera, t.input = .notice (.camera camera) ∧ camera.isSettled = true) ∧
      ∃ earlier e₁, Sequel e earlier e₁ ∧
        sent t.effects = (e₁.attempt? t.outlook s.cause).toList := by
  induction h with
  | here => cases ht
  | @turn ts e₁ e₂ u past now ih =>
    have hearlier : ∀ v ∈ ts, v.asks = false := fun v hv => ha v (List.mem_cons_of_mem u hv)
    rw [takenUp, past.after_eq] at ht
    split at ht
    · next htakes =>
      rcases List.mem_cons.mp ht with rfl | ht
      · obtain ⟨s₁, hs₁⟩ := Option.isSome_iff_exists.mp (takesUp_iff.mp htakes).2.1
        obtain ⟨s₀, hs₀, hafter, -⟩ := past.settling he hearlier hs₁
        obtain rfl := Option.some.inj (hs.symm.trans hs₀)
        obtain ⟨-, hcamera, hsent⟩ := (past.reachable he).step_takesUp now hs₁ htakes
        refine ⟨hcamera, ts, e₁, past, ?_⟩
        rw [hsent, hafter, Settling.cause_after]
      · exact ih hearlier ht
    · exact ih hearlier ht

/-- An activation that the pilot has not asked for anew follows from deleted media, or it is of the
attempt that is taken up. -/
theorem mem_takenUp_of_activates (h : Sequel e ts e') (ha : ∀ t ∈ ts, t.asks = false) {t : Turn}
    (ht : t ∈ ts) {o : Order} (ho : o ∈ sent t.effects) (hact : o.activates = true) :
    t ∈ e.takenUp ts ∨ ∃ missionId, t.input = .notice (.cleanedUp missionId .done) := by
  induction h with
  | here => cases ht
  | @turn ts e₁ e₂ u past now ih =>
    have hmem {v : Turn} (hv : v ∈ e.takenUp ts) : v ∈ e.takenUp (u :: ts) := by
      rw [takenUp]
      split
      · exact List.mem_cons_of_mem u hv
      · exact hv
    rcases List.mem_cons.mp ht with rfl | ht
    · obtain ⟨c, hcause, -⟩ := (exists_sent_activates_iff now).mp ⟨o, ho, hact⟩
      have hasks := ha t List.mem_cons_self
      generalize hi : t.input = i at hcause
      cases due_of_cause? hcause with
      | play | unpause =>
        rw [Turn.asks, hi] at hasks
        cases hasks
      | settled hlooks hs hsettled =>
        left
        have htakes : e₁.takesUp t.input = true := by
          rw [hi]
          exact takesUp_iff.mpr ⟨hlooks, by rw [hs]; rfl, hsettled⟩
        rw [takenUp, past.after_eq, if_pos htakes]
        exact List.mem_cons_self
      | @cleaned p => exact .inr ⟨p.missionId, rfl⟩
    · rcases ih (fun v hv => ha v (List.mem_cons_of_mem u hv)) ht with hin | hcleaned
      · exact .inl (hmem hin)
      · exact .inr hcleaned

end Sequel

/-- **An attempt waits only for a busy camera, and not for ever.**  A look at the camera gives no
order.  Unless the pilot asks again, so many looks as are allowed, and at least one, end the wait.
Until then the attempt is taken up at most once, when a settled camera is reported, and it begins as
the launch or the resumption that was put off.  Any other activation follows from deleted media. -/
theorem History.waits_until_settled {settings : RunSettings} {ts : List Turn} {e : Engine}
    (h : History settings ts e) :
    (e.settling.isSome = true → (lastCamera ts).isSettled = false) ∧
    (∀ w, ∃ e' log, e.step w .poll = .ok (e', log) ∧ sent log = []) ∧
    ∀ s later e', e.settling = some s → Sequel e later e' → (∀ t ∈ later, t.asks = false) →
      (max 1 settings.pollLimit ≤ later.countP Turn.polls → e'.settling = none) ∧
      (e.takenUp later).length ≤ 1 ∧
      (∀ t ∈ e.takenUp later,
        (∃ camera, t.input = .notice (.camera camera) ∧ camera.isSettled = true) ∧
        ∃ earlier e₁, Sequel e earlier e₁ ∧
          sent t.effects = (e₁.attempt? t.outlook s.cause).toList) ∧
      ∀ t ∈ later, ∀ o ∈ sent t.effects, o.activates = true →
        t ∈ e.takenUp later ∨ ∃ missionId, t.input = .notice (.cleanedUp missionId .done) := by
  have hr := h.reachable
  refine ⟨fun hs => ?_, fun w => ?_, fun s later e' hs hlater ha => ⟨fun hlooks => ?_, ?_, ?_, ?_⟩⟩
  · rw [← h.camera_eq]
    exact hr.busy_of_settling hs
  · have hstep : e.step w .poll = _ := step_of_handle rfl
    exact ⟨_, _, hstep, hr.sent_poll hstep⟩
  · cases hs' : e'.settling with
    | none => rfl
    | some s' =>
      obtain ⟨s₀, -, hafter, hlimit⟩ := hlater.settling hr ha hs'
      have hfew : s'.attempts < settings.pollLimit := by
        rw [← h.settings_eq]
        exact hlimit (by omega)
      have hcounted : s'.attempts = s₀.attempts + later.countP Turn.polls :=
        congrArg Settling.attempts hafter
      omega
  · have hle := hlater.length_takenUp_le hr ha
    rw [hs, Option.isSome_some, Bool.toNat_true] at hle
    omega
  · intro t ht
    exact hlater.of_mem_takenUp hr ha hs ht
  · intro t ht o ho hact
    exact hlater.mem_takenUp_of_activates ha ht ho hact

/-- The mission is played while the camera is busy. -/
def hesitation : List Input :=
  [reportIdle, .notice (.connection true),
    .notice (.camera { present := true, configuring := true }), .wish (.setup sample []),
    .wish .play]

theorem waits_hesitation :
    (trial { pollLimit := 2 } (smoothly hesitation)).2.settling = some { restart := true } ∧
    (lastCamera (trial { pollLimit := 2 } (smoothly hesitation)).1).isSettled = false ∧
    ((smoothly [.poll, reportIdle, .poll]).foldl extend
      ([], (trial { pollLimit := 2 } (smoothly hesitation)).2)).2.settling = none := by
  have hs : (trial { pollLimit := 2 } (smoothly hesitation)).2.settling = some { restart := true } :=
    by decide
  obtain ⟨hbusy, -, hends⟩ :=
    (history_trial { pollLimit := 2 } (smoothly hesitation)).waits_until_settled
  refine ⟨hs, hbusy (by rw [hs]; rfl), ?_⟩
  refine (hends _ _ _ hs (sequel_foldl_extend (smoothly [.poll, reportIdle, .poll]) .here) ?_).1 ?_
  · decide
  · decide

end Sortie.Run
