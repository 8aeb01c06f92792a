import Sortie.Proofs.Run.Stopping
import Sortie.Proofs.Run.Waiting

/-!
# On the way to the first waypoint

While no waypoint has been passed the board says that the aircraft is on its way to the first one.
A report that it does not fly the mission takes this back, and so does what unloads the run
(`navigating_step`).  A stop does not.  So a run that is stopped on the way out is over and shows
that it is still on its way, until the aircraft reports, or until the run is flown again or
replaced.  `History.navigating_on_ground_iff` says that there is no other way to it.

What makes this an equivalence is that a run shows nothing of the kind while an activation of it is
under way or put off, and not when it is paused either (`Heads`).
-/

namespace Sortie.Run

/-- The aircraft says that it does not fly the mission. -/
def Input.reportsIdle : Input → Bool
  | .notice (.interface report) => !report.any (·.state = .active)
  | _ => false

namespace Phase

/-- The run is over, or it has failed. -/
def IsClosed (p : Phase) : Prop :=
  p = .ended ∨ ∃ f, p = .failed f

theorem IsClosed.not_isFlying {p : Phase} (h : p.IsClosed) : ¬ p.IsFlying := by
  rcases h with rfl | ⟨f, rfl⟩ <;> simp [IsFlying]

end Phase

/-- The input takes back what is shown of the way out. -/
def Registers.lowers (r : Registers) : Input → Bool
  | .wish (.setup ..) | .wish .reset => true
  | .notice (.interface report) =>
    !report.any (·.state = .active) ||
      decide (r.intent = .stopped) && decide (r.phase = .noMission ∨ r.phase = .ended)
  | _ => false

namespace Engine

variable {e e' : Engine} {w : Outlook} {i : Input} {log : List Effect}

/-! ### Operations that leave the way out as it is shown -/

@[simp] theorem navigating_tell (e : Engine) (x : Effect) :
    (e.tell x).board.navigating = e.board.navigating := rfl

@[simp] theorem navigating_emit (e : Engine) (x : Event) :
    (e.emit x).board.navigating = e.board.navigating := rfl

@[simp] theorem navigating_order (e : Engine) (w : Outlook) (o : Order) :
    (e.order w o).board.navigating = e.board.navigating := rfl

@[simp] theorem navigating_setWatch (e : Engine) (w : Watch) :
    (e.setWatch w).board.navigating = e.board.navigating := rfl

@[simp] theorem navigating_setState (e : Engine) (s : State) :
    (e.setState s).board.navigating = e.board.navigating := by
  unfold setState
  split <;> rfl

@[simp] theorem navigating_refreshWatch (e : Engine) :
    e.refreshWatch.board.navigating = e.board.navigating := by
  unfold refreshWatch
  split <;> rfl

@[simp] theorem navigating_showElapsed (e : Engine) (d : Clock.Span) :
    (e.showElapsed d).board.navigating = e.board.navigating := by
  unfold showElapsed
  split <;> rfl

@[simp] theorem navigating_showReady (e : Engine) (b : Bool) :
    (e.showReady b).board.navigating = e.board.navigating := by
  unfold showReady
  split <;> rfl

@[simp] theorem navigating_showNavigating (e : Engine) (b : Bool) :
    (e.showNavigating b).board.navigating = b := by
  unfold showNavigating
  split
  · next h => exact h
  · rfl

@[simp] theorem navigating_commit (e : Engine) :
    e.commit.board.navigating = e.board.navigating := by
  unfold commit
  split
  · rfl
  · simp

@[simp] theorem navigating_reach (e : Engine) (item : Nat) :
    (e.reach item).board.navigating = e.board.navigating := by
  unfold reach
  split
  · rfl
  · split
    · dsimp only
      split <;> simp
    · rfl

@[simp] theorem navigating_hold (e : Engine) : e.hold.board.navigating = e.board.navigating := by
  unfold hold
  dsimp only
  split <;> simp

@[simp] theorem navigating_finish (e : Engine) :
    e.finish.board.navigating = e.board.navigating := by
  unfold finish
  dsimp only
  repeat' split
  all_goals simp

@[simp] theorem navigating_fail (e : Engine) (f : Failure) :
    (e.fail f).board.navigating = e.board.navigating := by
  unfold fail
  simp

@[simp] theorem navigating_activate (e : Engine) (w : Outlook) (item : Nat) (restart : Bool) :
    (e.activate w item restart).board.navigating = e.board.navigating := by
  unfold activate
  split
  · rfl
  · dsimp only
    split <;> simp

@[simp] theorem navigating_cleanUpFirst (e : Engine) (w : Outlook) (missionId resource : String)
    (item : Nat) :
    (e.cleanUpFirst w missionId resource item).board.navigating = e.board.navigating := by
  unfold cleanUpFirst
  dsimp only
  split <;> simp

@[simp] theorem navigating_launchOrResume (e : Engine) (w : Outlook) (restart : Bool) :
    (e.launchOrResume w restart).board.navigating = e.board.navigating := by
  unfold launchOrResume launch resume
  dsimp only
  repeat' split
  all_goals simp

@[simp] theorem navigating_whenSettled (e : Engine) (w : Outlook) (restart : Bool) :
    (e.whenSettled w restart).board.navigating = e.board.navigating := by
  unfold whenSettled
  split <;> simp

@[simp] theorem navigating_poll (e : Engine) (w : Outlook) :
    (e.poll w).board.navigating = e.board.navigating := by
  unfold poll
  repeat' split
  all_goals simp

@[simp] theorem navigating_takeIn (e : Engine) (report : Option Report) :
    (e.takeIn report).board.navigating = e.board.navigating := by
  unfold takeIn
  split
  · simp
  · dsimp only
    split <;> simp

@[simp] theorem navigating_unload (e : Engine) : e.unload.board.navigating = false := by
  unfold unload
  simp

/-- With a mission that starts the way out begins, if there is one. -/
theorem navigating_start (e : Engine) :
    e.start.board.navigating = e.board.navigating ∨ e.start.registers.watch = .active := by
  unfold start
  split
  · exact .inl rfl
  · rw [registers_setState, registers_setWatch]
    exact .inr rfl

/-! ### Inputs -/

/-- What an input does to what is shown of the way out: nothing; or the mission is flown from then
on; or the way out is taken back, by a report or with the run. -/
def Heads (e : Engine) (i : Input) (e' : Engine) : Prop :=
  (e'.board.navigating = e.board.navigating ∧ e.registers.lowers i = false) ∨
    e'.registers.watch = .active ∨
    e'.board.navigating = false ∧
      (i.reportsIdle = true ∨ e'.state.phase = .noMission ∨ e'.state.phase = .idle)

theorem heads_heed (e : Engine) (w : Outlook) (x : Wish) : e.Heads (.wish x) (e.heed w x) := by
  have hcleared {d : Engine} (hd : d.board.navigating = false)
      (hp : d.state.phase = .noMission ∨ d.state.phase = .idle) : e.Heads (.wish x) d :=
    .inr (.inr ⟨hd, .inr hp⟩)
  cases x with
  | setup x s =>
    have hidle := congrArg Registers.phase (registers_setup e x s)
    exact hcleared ((navigating_setState _ _).trans (navigating_unload e)) (.inr hidle)
  | reset =>
    have hnone := congrArg Registers.phase (registers_unload e)
    exact hcleared (navigating_unload e) (.inl hnone)
  | catchUp item recovery elapsed =>
    show e.Heads _ (e.catchUp item recovery elapsed)
    unfold catchUp
    split
    · exact .inl ⟨rfl, rfl⟩
    · refine (navigating_start _).elim (fun h => .inl ⟨h.trans ?_, rfl⟩) fun h => .inr (.inl h)
      rw [navigating_commit, navigating_showElapsed]
  | play | pause | unpause | stop | update | setAvailability =>
    refine .inl ⟨?_, rfl⟩
    dsimp only [heed]
    simp only [play, pause, unpause, stop, update, setAvailability]
    repeat' split
    all_goals simp

theorem heads_onActive {report : Option Report} (hr : report.any (·.state = .active) = true)
    (e : Engine) (w : Outlook) : e.Heads (.notice (.interface report)) (e.onActive w) := by
  have hstay {d : Engine} (hd : d.board.navigating = e.board.navigating)
      (hp : e.state.phase ≠ .noMission ∧ e.state.phase ≠ .ended) :
      e.Heads (.notice (.interface report)) d :=
    .inl ⟨hd, by simp [Registers.lowers, hr, registers, hp]⟩
  have hover : e.Heads (.notice (.interface report))
      (if e.intent = .stopped then (e.order w .stop).unload else e) := by
    split
    · have hnone := congrArg Registers.phase (registers_unload (e.order w .stop))
      exact .inr (.inr ⟨navigating_unload _, .inr (.inl hnone)⟩)
    · next hi => exact .inl ⟨rfl, by simp [Registers.lowers, hr, registers, hi]⟩
  unfold onActive
  cases hs : e.state with
  | failed | paused | idle =>
    have hp : e.state.phase ≠ .noMission ∧ e.state.phase ≠ .ended := by simp [hs, State.phase]
    cases e.intent with
    | playing => exact (navigating_start e).elim (hstay · hp) fun h => .inr (.inl h)
    | paused | stopped => exact hstay (navigating_order e w _) hp
    | none => exact hstay rfl hp
  | noMission | ended => exact hover
  | playing | returning => exact hstay rfl (by simp [hs, State.phase])

theorem navigating_onIdle (e : Engine) (isPaused : Bool) :
    (e.onIdle isPaused).board.navigating = false := by
  unfold onIdle
  dsimp only
  repeat' split
  all_goals simp

theorem heads_onInterface (e : Engine) (w : Outlook) (report : Option Report) :
    e.Heads (.notice (.interface report)) (e.onInterface w report) := by
  rw [onInterface_eq]
  split
  · next hr =>
    have h := heads_onActive hr (e.takeIn report) w
    rw [Heads, navigating_takeIn, registers_takeIn] at h
    exact h
  · next hr =>
    have hidle : (Input.notice (.interface report)).reportsIdle = true := by
      simpa [Input.reportsIdle] using hr
    exact .inr (.inr ⟨navigating_onIdle _ _, .inl hidle⟩)

theorem heads_notice (e : Engine) (w : Outlook) (n : Notice) :
    e.Heads (.notice n) (e.notice w n) := by
  cases n with
  | interface report => exact heads_onInterface e w report
  | landed | position => exact .inl ⟨rfl, rfl⟩
  | returnHome | connection | camera | cleanedUp =>
    refine .inl ⟨?_, rfl⟩
    dsimp only [notice]
    simp only [onReturnHome, onConnection, onCamera, onCleanedUp]
    repeat' split
    all_goals simp

theorem heads_tick (hc : e.registers.Coherent) (ht : e.tick = .ok e') : e.Heads .tick e' := by
  have hr := registers_tick ht
  unfold tick at ht
  split at ht
  · cases ht
    exact .inl ⟨rfl, rfl⟩
  · split at ht
    · next hcounting =>
      refine .inr (.inl ?_)
      rw [hr]
      exact hc.active_of_counting hcounting
    · cases ht
      exact .inl ⟨rfl, rfl⟩

/-- **What a step does to what is shown of the way out.** -/
theorem Reachable.heads_step (h : e.Reachable) (hs : e.step w i = .ok (e', log)) :
    e.Heads i e' := by
  obtain ⟨e₁, hh, rfl, -⟩ := handle_of_step hs
  show e.Heads i e₁
  cases i with
  | wish x => cases hh; exact heads_heed { e with log := [] } w x
  | notice n => cases hh; exact heads_notice { e with log := [] } w n
  | tick => exact heads_tick (e := { e with log := [] }) h.coherent hh
  | poll => cases hh; exact .inl ⟨navigating_poll _ w, rfl⟩
  | timeout missionId =>
    cases hh
    refine .inl ⟨?_, rfl⟩
    unfold timeout
    split <;> simp

/-- A report that the mission is flown says nothing new of one that is. -/
theorem registers_step_of_flying {report : Option Report} (hp : e.state.phase.IsFlying)
    (hr : report.any (·.state = .active) = true)
    (hs : e.step w (.notice (.interface report)) = .ok (e', log)) :
    e'.registers = e.registers := by
  obtain ⟨e₁, hh, rfl, -⟩ := handle_of_step hs
  cases hh
  have hin := registers_takeIn { e with log := [] } report
  have hphase : (takeIn { e with log := [] } report).state.phase = e.state.phase :=
    congrArg Registers.phase hin
  have hflying : (takeIn { e with log := [] } report).state.phase.IsFlying := hphase ▸ hp
  show (({ e with log := [] } : Engine).onInterface w report).registers = e.registers
  rw [onInterface_eq, if_pos hr]
  generalize takeIn { e with log := [] } report = d at hin hflying
  rcases (State.isFlying_iff d.state).mp hflying with ⟨connected, x, homeward, hd⟩ | ⟨x, hd⟩
  · rw [onActive, hd]
    exact hin
  · rw [onActive, hd]
    exact hin

end Engine

namespace Registers

variable {w : Outlook} {f : Facts} {r r' : Registers} {i : Input}

/-- The mission is flown, and no activation of it is under way or put off. -/
structure IsSteady (r : Registers) : Prop where
  flying : r.phase.IsFlying
  settled : r.settling = none
  clean : r.cleanUp = none
  answered : ∀ missionId, r.watch ≠ .activating missionId

theorem reportsIdle_of_lowers (h : r.lowers i = false) : i.reportsIdle = false := by
  cases i with
  | wish | tick | poll | timeout => rfl
  | notice n =>
    cases n with
    | interface report => exact (Bool.or_eq_false_iff.mp h).1
    | returnHome | connection | landed | position | camera | cleanedUp => rfl

theorem Coherent.isSteady (h : r.Coherent) (ha : r.watch = .active) : r.IsSteady := by
  obtain ⟨hsettled, hclean⟩ := h.ready_of_active ha
  exact ⟨h.flying_of_active ha, hsettled, hclean, fun missionId hw => by cases ha.symm.trans hw⟩

theorem isSteady_start (r : Registers) : r.start.IsSteady :=
  ⟨.inl rfl, rfl, rfl, fun missionId hw => by cases hw⟩

/-- **Only a stop ends a flight that is steady**, reports and other missions apart. -/
theorem IsSteady.move (h : r.IsSteady) (hb : r.Backed) (hm : Move w f r i r')
    (hi : r.lowers i = false) (hr : i.reportsActive = true → r' = r) :
    r'.IsSteady ∨ i.stops = true ∧ r'.phase = .ended := by
  have hpaused : r.phase ≠ .paused := by
    intro hp
    rcases h.flying with hf | hf <;> cases hp.symm.trans hf
  have hsettled : ∀ {s : Settling}, r.settling ≠ some s := by simp [h.settled]
  have hclean : ∀ {c : PendingCleanUp}, r.cleanUp ≠ some c := by simp [h.clean]
  have hasked {restart : Bool} : ¬ r.Asked i restart := by
    intro ha
    cases ha with
    | play hp => exact hp h.flying
    | unpause hp => exact hpaused hp
  have hreport {report : Option Report} (hrep : i = .notice (.interface report)) : r'.IsSteady := by
    subst hrep
    have hactive : report.any (·.state = .active) = true := by
      simpa [lowers] using (Bool.or_eq_false_iff.mp hi).1
    rw [hr hactive]
    exact h
  cases hm with
  | stay => exact .inl h
  | load | unload => cases hi
  | empty hl =>
    have hloaded := hb.of_running (.inl h.flying)
    rw [hl] at hloaded
    cases hloaded
  | unready ha | attempt ha | defer ha => exact absurd ha hasked
  | pause hp => exact .inl ⟨.inl hp, rfl, h.clean, fun _ hw => by cases hw⟩
  | quiet => exact .inl ⟨h.flying, rfl, rfl, h.answered⟩
  | stop => exact .inr ⟨rfl, rfl⟩
  | catchUp => exact .inl (isSteady_start _)
  | lose _ hp => exact absurd hp hpaused
  | rest | hold | finish | start | abandon => exact .inl (hreport rfl)
  | goHome => exact .inl ⟨.inr rfl, h.settled, h.clean, h.answered⟩
  | settled _ hs | unsettled hs | exhausted hs => exact absurd hs hsettled
  | cleaned hc | canceled hc | drop _ hc => exact absurd hc hclean
  | timeout _ hw => exact absurd hw (h.answered _)

/-- A run that has come to an end without a report stays so, unless it is flown again. -/
theorem move_isClosed (h : r.phase.IsClosed) (hm : Move w f r i r') (hi : r.lowers i = false) :
    r'.IsSteady ∨ r'.phase.IsClosed := by
  have hrunning : ¬ r.phase.IsRunning := by
    rcases h with hp | ⟨f, hp⟩ <;> simp [hp, Phase.IsRunning, Phase.IsFlying]
  have hout {d : Registers} {o : Option Order} (ho : Outcome w d o r') (hd : d.phase = r.phase) :
      r'.IsSteady ∨ r'.phase.IsClosed := by
    cases ho with
    | grounded | rejected | canceled => exact .inr (.inr ⟨_, rfl⟩)
    | sent | cleaning => exact .inr (hd.symm ▸ h)
  cases hm with
  | stay | quiet | rest | defer | unsettled | drop => exact .inr h
  | load | unload => cases hi
  | empty | unready | exhausted | canceled | timeout => exact .inr (.inr ⟨_, rfl⟩)
  | attempt _ _ _ ho | settled _ _ _ ho | cleaned _ _ ho => exact hout ho rfl
  | pause hp => exact absurd (.inl (.inl hp)) hrunning
  | stop => exact .inr (.inl rfl)
  | catchUp | start => exact .inl (isSteady_start _)
  | lose _ hp => exact absurd (.inr hp) hrunning
  | hold _ hp => exact absurd (.inl hp) hrunning
  | finish _ hp | goHome hp => exact absurd hp hrunning
  | @abandon report hp hintent hr =>
    have hr : report.any (·.state = .active) = true := hr
    simp [lowers, hr, hp, hintent] at hi

end Registers

namespace Engine

variable {e e' : Engine} {w : Outlook} {i : Input} {log : List Effect}

theorem Reachable.step_of_isSteady (h : e.Reachable) (hsteady : e.registers.IsSteady)
    (hi : e.registers.lowers i = false) (hs : e.step w i = .ok (e', log)) :
    e'.registers.IsSteady ∨ i.stops = true ∧ e'.state.phase = .ended := by
  refine hsteady.move h.coherent.backed (move_step h.coherent.backed hs) hi fun hr => ?_
  obtain ⟨report, rfl, hactive⟩ := Input.exists_report hr
  exact registers_step_of_flying hsteady.flying hactive hs

/-- What is shown on its way out is flown, and nothing of it is put off; or it has come to an
end. -/
theorem Reachable.isSteady_or_isClosed (h : e.Reachable) :
    e.board.navigating = true → e.registers.IsSteady ∨ e.state.phase.IsClosed := by
  refine Reachable.induction (P := fun e => e.board.navigating = true →
    e.registers.IsSteady ∨ e.state.phase.IsClosed) (fun _ hn => by cases hn) ?_ h
  intro e e' w i log he ih hs hn
  rcases he.heads_step hs with ⟨hsame, hi⟩ | hactive | ⟨hlow, -⟩
  · rcases ih (hsame ▸ hn) with hsteady | hclosed
    · exact (he.step_of_isSteady hsteady hi hs).imp_right fun hstop => .inl hstop.2
    · exact Registers.move_isClosed hclosed (move_step he.coherent.backed hs) hi
  · exact .inl ((he.step hs).coherent.isSteady hactive)
  · cases hn.symm.trans hlow

/-- A run that has come to an end shows what it has shown, until the aircraft reports. -/
theorem Reachable.navigating_of_isClosed (h : e.Reachable) (hs : e.step w i = .ok (e', log))
    (hclosed : e'.state.phase.IsClosed) (hi : i.reportsIdle = false) :
    e'.board.navigating = e.board.navigating := by
  rcases h.heads_step hs with ⟨hsame, -⟩ | hactive | ⟨-, hcleared⟩
  · exact hsame
  · have hflying := (h.step hs).coherent.flying_of_active hactive
    exact absurd hflying hclosed.not_isFlying
  · rcases hcleared with hidle | hp | hp
    · cases hi.symm.trans hidle
    · rcases hclosed with hc | ⟨f, hc⟩ <;> cases hp.symm.trans hc
    · rcases hclosed with hc | ⟨f, hc⟩ <;> cases hp.symm.trans hc

end Engine

/-- The run stays at its end through the turns, and the aircraft does not report meanwhile that it
does not fly the mission. -/
structure Lingers (e : Engine) (ts : List Turn) : Prop where
  closed : ∀ past, past <:+ ts → (e.after past).state.phase.IsClosed
  unreported : ∀ t ∈ ts, t.input.reportsIdle = false

theorem Lingers.here {e : Engine} (h : e.state.phase.IsClosed) : Lingers e [] where
  closed past hpast := by
    rw [List.suffix_nil.mp hpast]
    exact h
  unreported t ht := by cases ht

theorem Lingers.turn {e : Engine} {t : Turn} {ts : List Turn} (h : Lingers e ts)
    (hclosed : (e.after (t :: ts)).state.phase.IsClosed) (ht : t.input.reportsIdle = false) :
    Lingers e (t :: ts) where
  closed past hpast := by
    rcases List.suffix_cons_iff.mp hpast with rfl | hpast
    · exact hclosed
    · exact h.closed past hpast
  unreported u hu := by
    rcases List.mem_cons.mp hu with rfl | hu
    · exact ht
    · exact h.unreported u hu

/-- A run that lingers shows what it has shown at its end. -/
theorem Sequel.navigating_eq {e e' : Engine} {ts : List Turn} (h : Sequel e ts e')
    (he : e.Reachable) (hts : Lingers e ts) : e'.board.navigating = e.board.navigating := by
  induction h with
  | here => rfl
  | @turn ts e₁ e₂ t past now ih =>
    have hclosed := hts.closed _ List.suffix_rfl
    rw [(past.turn now).after_eq] at hclosed
    have hpast : Lingers e ts :=
      ⟨fun us hus => hts.closed us (hus.trans (List.suffix_cons t ts)),
        fun u hu => hts.unreported u (List.mem_cons_of_mem t hu)⟩
    have hstep := (past.reachable he).navigating_of_isClosed now hclosed
      (hts.unreported t List.mem_cons_self)
    exact hstep.trans (ih hpast)

/-- **The board says that the aircraft is on its way out although the mission is not flown exactly
if the run was stopped on its way out and has been at its end since**, with no report meanwhile that
the mission is not flown. -/
theorem History.navigating_on_ground_iff {settings : RunSettings} {ts : List Turn} {e : Engine}
    (h : History settings ts e) :
    e.board.navigating = true ∧ ¬ e.state.phase.IsFlying ↔
      ∃ later t before e₀ e₁, ts = later ++ t :: before ∧ History settings before e₀ ∧
        e₀.board.navigating = true ∧ e₀.state.phase.IsFlying ∧ t.input.stops = true ∧
        e₀.step t.outlook t.input = .ok (e₁, t.effects) ∧ Sequel e₁ later e ∧ Lingers e₁ later := by
  constructor
  · rintro ⟨hn, hp⟩
    induction h with
    | fresh => cases hn
    | @turn ts e e' t past now ih =>
      have hr := past.reachable
      have hclosed : e'.state.phase.IsClosed :=
        ((hr.step now).isSteady_or_isClosed hn).resolve_left fun hs => hp hs.flying
      rcases hr.heads_step now with ⟨hsame, hi⟩ | hactive | ⟨hlow, -⟩
      · have hnav : e.board.navigating = true := hsame ▸ hn
        rcases hr.isSteady_or_isClosed hnav with hsteady | hended
        · have hstop := (hr.step_of_isSteady hsteady hi now).resolve_left fun hs => hp hs.flying
          exact ⟨[], t, ts, e, e', rfl, past, hnav, hsteady.flying, hstop.1, now, .here,
            .here hclosed⟩
        · obtain ⟨later, u, before, e₀, e₁, rfl, hbefore, hn₀, hp₀, hu, hstop, hlater, hlingers⟩ :=
            ih hnav hended.not_isFlying
          refine ⟨t :: later, u, before, e₀, e₁, rfl, hbefore, hn₀, hp₀, hu, hstop,
            hlater.turn now, hlingers.turn ?_ (Registers.reportsIdle_of_lowers hi)⟩
          rw [(hlater.turn now).after_eq]
          exact hclosed
      · exact absurd ((hr.step now).coherent.flying_of_active hactive) hp
      · cases hn.symm.trans hlow
  · rintro ⟨later, t, before, e₀, e₁, -, hbefore, hn₀, -, ht, hstop, hlater, hlingers⟩
    have hr := hbefore.reachable
    have hclosed : e₁.state.phase.IsClosed := hlingers.closed [] (List.nil_suffix)
    obtain ⟨forced, hi⟩ := Input.eq_of_stops ht
    have hn₁ : e₁.board.navigating = true := by
      rw [hr.navigating_of_isClosed hstop hclosed (by rw [hi]; rfl)]
      exact hn₀
    have hend : e.state.phase.IsClosed := by
      rw [← hlater.after_eq]
      exact hlingers.closed later List.suffix_rfl
    exact ⟨(hlater.navigating_eq (hr.step hstop) hlingers).trans hn₁, hend.not_isFlying⟩

/-- The sample is stopped before its first waypoint. -/
def brokenOff : List Input :=
  departure ++ [.wish (.stop true)]

/-- Nothing takes the way out back when a run is stopped. -/
theorem navigating_on_ground_brokenOff :
    History {} (trial {} (smoothly brokenOff)).1 (trial {} (smoothly brokenOff)).2 ∧
    (trial {} (smoothly brokenOff)).2.board.navigating = true ∧
    ¬ (trial {} (smoothly brokenOff)).2.state.phase.IsFlying := by
  have h := history_trial {} (smoothly brokenOff)
  have hbefore := history_trial {} (smoothly departure)
  have hclosed : (trial {} (smoothly brokenOff)).2.state.phase.IsClosed := .inl (by decide)
  exact ⟨h, h.navigating_on_ground_iff.mpr
    ⟨[], ⟨{}, .wish (.stop true), _⟩, _, _, _, rfl, hbefore, by decide, by decide, rfl, rfl, .here,
      .here hclosed⟩⟩

/-- A run may be shown on its way out when it is over. -/
theorem not_forall_flying_of_navigating :
    ¬ ∀ e : Engine, e.Reachable → e.board.navigating = true →
      e.state.phase = .playing ∨ e.state.phase = .returning := by
  intro hall
  have hreachable := reachable_trial {} (smoothly brokenOff)
  exact absurd (hall _ hreachable (by decide)) (by decide)

end Sortie.Run
