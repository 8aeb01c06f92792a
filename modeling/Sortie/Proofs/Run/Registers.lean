import Sortie.Run.Step

/-!
# The registers of a run

How a run goes on hangs on little of the engine: in which phase it is, what the pilot wants, what
the watch says, whether time is counted, what is put off, and which mission is loaded.
`Engine.registers` reads these off, and each operation of the engine has one lemma here that says
what it does to them.  Values shown, events, records and what is known of the aircraft do not
matter: `registers_commit`, `registers_advance` and `registers_reach` leave the registers alone.

A state is set only if it differs, by the comparison of its floats.  So after `setState s` the
state need not be `s` itself, but its phase is that of `s` (`registers_setState`).
-/

namespace Sortie.Run

/-- A state without the record and the flags that it carries. -/
inductive Phase where
  | noMission
  | idle
  | failed (f : Failure)
  | playing
  | returning
  | paused
  | ended
  deriving DecidableEq, Repr

namespace Phase

/-- The aircraft flies the mission or its way home. -/
def IsFlying (p : Phase) : Prop :=
  p = playing ∨ p = returning

instance (p : Phase) : Decidable p.IsFlying :=
  inferInstanceAs (Decidable (_ ∨ _))

/-- The aircraft has the mission: it flies it or has paused it. -/
def IsRunning (p : Phase) : Prop :=
  p.IsFlying ∨ p = paused

instance (p : Phase) : Decidable p.IsRunning :=
  inferInstanceAs (Decidable (_ ∨ _))

/-- A mission is loaded in all phases but two. -/
def HasMission (p : Phase) : Prop :=
  p ≠ noMission ∧ p ≠ failed .noMission

instance (p : Phase) : Decidable p.HasMission :=
  inferInstanceAs (Decidable (_ ∧ _))

theorem IsFlying.hasMission {p : Phase} (h : p.IsFlying) : p.HasMission := by
  rcases h with rfl | rfl <;> exact ⟨by decide, by decide⟩

theorem hasMission_paused : paused.HasMission := by decide

theorem IsRunning.hasMission {p : Phase} (h : p.IsRunning) : p.HasMission := by
  rcases h with h | rfl
  · exact h.hasMission
  · exact hasMission_paused

end Phase

namespace State

def phase : State → Phase
  | noMission => .noMission
  | idle .. => .idle
  | failed f => .failed f
  | playing .. => .playing
  | returning _ => .returning
  | paused .. => .paused
  | ended .. => .ended

theorem phase_eq_of_beq {s t : State} (h : (s == t) = true) : s.phase = t.phase := by
  cases s <;> cases t <;> simp_all [BEq.beq, instBEqState.beq, phase]

theorem phase_withExecution (s : State) (x : Execution) : (s.withExecution x).phase = s.phase := by
  cases s <;> rfl

theorem eq_noMission_iff {s : State} : s = noMission ↔ s.phase = .noMission := by
  cases s <;> simp [phase]

theorem eq_failed_iff {s : State} {f : Failure} : s = failed f ↔ s.phase = .failed f := by
  cases s <;> simp [phase]

theorem isFlying_iff (s : State) :
    s.phase.IsFlying ↔ (∃ connected x homeward, s = playing connected x homeward) ∨
      ∃ x, s = returning x := by
  cases s <;> simp [phase, Phase.IsFlying]

theorem running?_isSome_iff (s : State) :
    s.running?.isSome = true ↔ s.phase.IsRunning := by
  cases s <;> simp [running?, phase, Phase.IsRunning, Phase.IsFlying]

theorem not_isFlying {s : State}
    (hp : ∀ connected x homeward, s = playing connected x homeward → False)
    (hr : ∀ x, s = returning x → False) : ¬ s.phase.IsFlying := by
  intro h
  rcases (isFlying_iff s).mp h with ⟨connected, x, homeward, hs⟩ | ⟨x, hs⟩
  · exact hp connected x homeward hs
  · exact hr x hs

end State

/-- A watch without the records that it carries. -/
inductive Stage where
  | none
  | activating (missionId : String)
  | active
  deriving DecidableEq, Repr

namespace Watch

def stage : Watch → Stage
  | none => .none
  | activating x => .activating x.missionId
  | active _ => .active

theorem eq_none_iff {w : Watch} : w = none ↔ w.stage = .none := by
  cases w <;> simp [stage]

theorem hasActive_iff (w : Watch) : w.hasActive = true ↔ w.stage = .active := by
  cases w <;> simp [hasActive, active?, stage]

theorem activatingId?_eq_some_iff (w : Watch) (id : String) :
    w.activatingId? = some id ↔ w.stage = .activating id := by
  cases w <;> simp [activatingId?, stage]

theorem stage_refresh? {w v : Watch} {x : Execution} (h : w.refresh? x = some v) :
    v.stage = w.stage := by
  cases w with
  | none | activating => simp [refresh?] at h
  | active current =>
    simp only [refresh?] at h
    split at h
    · obtain rfl := Option.some.inj h
      rfl
    · cases h

end Watch

namespace Flight

theorem missionId_committed (f : Flight) : f.committed.missionId = f.record.missionId := by
  unfold committed
  cases f.latest <;> rfl

theorem missionId_commit (f : Flight) : f.commit.record.missionId = f.record.missionId :=
  f.missionId_committed

end Flight

/-- What decides how a run goes on. -/
structure Registers where
  phase : Phase
  intent : Intent
  watch : Stage
  counting : Bool
  settling : Option Settling
  cleanUp : Option PendingCleanUp
  /-- The mission that is loaded. -/
  loaded : Option String
  deriving DecidableEq, Repr

namespace Registers

def enter (r : Registers) (p : Phase) : Registers :=
  { r with phase := p }

def see (r : Registers) (s : Stage) : Registers :=
  { r with watch := s }

/-- The aircraft flies the mission. -/
def start (r : Registers) : Registers :=
  { r with phase := .playing, watch := .active, counting := true, settling := none, cleanUp := none }

/-- The aircraft has paused the mission.  What is put off stays put off. -/
def hold (r : Registers) : Registers :=
  { r with phase := .paused, intent := .paused, watch := .none, counting := false }

/-- The flight is over.  What the pilot wanted is not forgotten. -/
def finish (r : Registers) : Registers :=
  { r with phase := .ended, watch := .none, counting := false, settling := none, cleanUp := none }

/-- An attempt is given up. -/
def fail (r : Registers) (f : Failure) : Registers :=
  { r with phase := .failed f, intent := .none, watch := .none, settling := none, cleanUp := none }

/-- The run is forgotten.  The watch is taken off only a mission that is run. -/
def unload (r : Registers) : Registers :=
  { phase := .noMission
    intent := .none
    watch := if r.phase.IsRunning then .none else r.watch
    counting := false
    settling := none
    cleanUp := none
    loaded := none }

end Registers

namespace Engine

def registers (e : Engine) : Registers :=
  { phase := e.state.phase
    intent := e.intent
    watch := e.watch.stage
    counting := e.counting
    settling := e.settling
    cleanUp := e.cleanUp
    loaded := e.missionId? }

/-- The registers of an engine whose flight is replaced by one of the same mission. -/
theorem registers_withFlight {e : Engine} {f g : Flight} (h : e.flight = some f)
    (hid : g.record.missionId = f.record.missionId) :
    ({ e with flight := some g } : Engine).registers = e.registers := by
  simp only [registers, missionId?, execution?, h, Option.map_some, hid]

theorem loaded_eq_of_flight {e : Engine} {f : Flight} (h : e.flight = some f) :
    e.registers.loaded = some f.record.missionId := by
  simp [registers, missionId?, execution?, h]

theorem loaded_isSome {e : Engine} {f : Flight} (h : e.flight = some f) :
    e.registers.loaded.isSome = true := by
  rw [loaded_eq_of_flight h]
  rfl

theorem flight_eq_none_iff (e : Engine) : e.flight = none ↔ e.registers.loaded = none := by
  simp [registers, missionId?, execution?]

/-! ### What is told and shown -/

@[simp] theorem registers_emit (e : Engine) (x : Event) : (e.emit x).registers = e.registers := rfl

@[simp] theorem registers_order (e : Engine) (w : Outlook) (o : Order) :
    (e.order w o).registers = e.registers := rfl

@[simp] theorem registers_showProgress (e : Engine) (x : Float) :
    (e.showProgress x).registers = e.registers := by
  unfold showProgress; split <;> rfl

@[simp] theorem registers_showElapsed (e : Engine) (d : Clock.Span) :
    (e.showElapsed d).registers = e.registers := by
  unfold showElapsed; split <;> rfl

@[simp] theorem registers_showDistance (e : Engine) (x : Float) :
    (e.showDistance x).registers = e.registers := by
  unfold showDistance; split <;> rfl

@[simp] theorem registers_showNavigating (e : Engine) (b : Bool) :
    (e.showNavigating b).registers = e.registers := by
  unfold showNavigating; split <;> rfl

@[simp] theorem registers_showReady (e : Engine) (b : Bool) :
    (e.showReady b).registers = e.registers := by
  unfold showReady; split <;> rfl

/-! ### State and watch -/

@[simp] theorem registers_setState (e : Engine) (s : State) :
    (e.setState s).registers = e.registers.enter s.phase := by
  unfold setState
  split
  · next h => simp only [registers, Registers.enter, State.phase_eq_of_beq h]
  · rfl

@[simp] theorem registers_setWatch (e : Engine) (w : Watch) :
    (e.setWatch w).registers = e.registers.see w.stage := rfl

@[simp] theorem registers_refreshWatch (e : Engine) : e.refreshWatch.registers = e.registers := by
  unfold refreshWatch
  split
  · next v h =>
    obtain ⟨x, -, hv⟩ := Option.bind_eq_some_iff.mp h
    rw [registers_setWatch, Watch.stage_refresh? hv]
    rfl
  · rfl

/-! ### Progress -/

theorem flight_refreshWatch (e : Engine) : e.refreshWatch.flight = e.flight := by
  unfold refreshWatch
  split <;> rfl

theorem flight_commit {e : Engine} {f : Flight} (h : e.flight = some f) :
    e.commit.flight = some f.commit := by
  unfold commit
  rw [h]
  exact flight_refreshWatch _

@[simp] theorem registers_commit (e : Engine) : e.commit.registers = e.registers := by
  unfold commit
  split
  · rfl
  · next f h =>
    rw [registers_emit]
    show ({ e with flight := some f.commit } : Engine).refreshWatch.registers = e.registers
    rw [registers_refreshWatch, registers_withFlight h f.missionId_commit]

@[simp] theorem registers_advance (e : Engine) : e.advance.registers = e.registers := by
  unfold advance
  split
  · rfl
  · next f h =>
    split
    · rw [registers_showNavigating]
    · dsimp only
      split
      · rw [registers_showNavigating]
      · rw [registers_emit, registers_showDistance, registers_showProgress]
        refine (registers_withFlight (f := f) ?_ rfl).trans (registers_showNavigating e false)
        unfold showNavigating
        split <;> exact h

@[simp] theorem registers_reach (e : Engine) (item : Nat) :
    (e.reach item).registers = e.registers := by
  unfold reach
  split
  · rfl
  · next f h =>
    split
    · dsimp only
      split
      · next connected x homeward hs =>
        have hp : e.registers.phase = .playing := congrArg State.phase hs
        have hg : ({ e with flight := some { f with
            latest := some item, record := f.record.mark f.commands item } } : Engine).registers
            = e.registers := registers_withFlight h rfl
        rw [registers_setState, registers_refreshWatch]
        refine (congrArg (Registers.enter · .playing) hg).trans ?_
        rw [← hp]
        rfl
      · rw [registers_emit]
        exact registers_withFlight h rfl
    · rfl

/-! ### Phases -/

theorem registers_start {e : Engine} {f : Flight} (h : e.flight = some f) :
    e.start.registers = e.registers.start := by
  simp only [start, h, registers_setState, registers_setWatch, registers_advance]
  simp only [registers, missionId?, execution?, h]
  rfl

theorem registers_hold {e : Engine} {f : Flight} (h : e.flight = some f) :
    e.hold.registers = e.registers.hold := by
  have hc : ({ e with counting := false, intent := .paused } : Engine).commit.flight
      = some f.commit := flight_commit h
  simp only [hold, hc, registers_setState, registers_setWatch, registers_commit]
  rfl

theorem registers_finish {e : Engine} {f : Flight} (h : e.flight = some f) :
    e.finish.registers = e.registers.finish := by
  have hc : ({ e with counting := false, settling := none, cleanUp := none } : Engine).commit.flight
      = some f.commit := flight_commit h
  simp only [finish, hc, registers_setState, registers_setWatch]
  split
  · rw [registers_emit, registers_commit]
    rfl
  · rw [registers_commit]
    rfl

theorem registers_unload (e : Engine) : e.unload.registers = e.registers.unload := by
  simp only [unload, registers_setState, registers_showNavigating, registers_showDistance,
    registers_showProgress, registers_showElapsed]
  by_cases hr : e.state.running?.isSome = true
  · have hp : e.registers.phase.IsRunning := (State.running?_isSome_iff _).mp hr
    simp only [if_pos hr, Registers.unload, if_pos hp]
    rfl
  · have hp : ¬ e.registers.phase.IsRunning := fun h => hr ((State.running?_isSome_iff _).mpr h)
    simp only [if_neg hr, Registers.unload, if_neg hp]
    rfl

/-! ### Activation -/

@[simp] theorem registers_fail (e : Engine) (f : Failure) :
    (e.fail f).registers = e.registers.fail f := by
  simp only [fail, registers_setState, registers_setWatch]
  rfl

/-! ### Reports -/

/-- What a report brings by itself, before the run goes on by it. -/
def takeIn (e : Engine) (report : Option Report) : Engine :=
  let e := { e with facts := { e.facts with report } }.showReady (report.any Report.isReady)
  match report with
  | none => e
  | some r =>
    let e := { e with flight := e.flight.map (Flight.withRecovery · r.recovery) }
    match r.latest? with
    | some item => e.reach item
    | none => e

theorem onInterface_eq (e : Engine) (w : Outlook) (report : Option Report) :
    e.onInterface w report =
      if report.any (·.state = .active) then (e.takeIn report).onActive w
      else (e.takeIn report).onIdle (report.any (·.isPaused)) := by
  cases report with
  | none => rfl
  | some r =>
    cases hl : r.latest? <;> cases hr : r.state <;> simp [onInterface, takeIn, hl, hr]

theorem state_reach {e : Engine} (h : e.state.phase ≠ .playing) (item : Nat) :
    (e.reach item).state = e.state := by
  unfold reach
  split
  · rfl
  · split
    · dsimp only
      split
      · next hs => exact absurd (congrArg State.phase hs) h
      · rfl
    · rfl

theorem state_showReady (e : Engine) (b : Bool) : (e.showReady b).state = e.state := by
  unfold showReady
  split <;> rfl

/-- Only a mission that is played has its state changed by a report itself. -/
theorem state_takeIn {e : Engine} (h : e.state.phase ≠ .playing) (report : Option Report) :
    (e.takeIn report).state = e.state := by
  have hd : (({ e with facts := { e.facts with report } } : Engine).showReady
      (report.any Report.isReady)).state = e.state := state_showReady _ _
  unfold takeIn
  cases report with
  | none => exact hd
  | some r =>
    dsimp only
    split
    · refine (state_reach ?_ _).trans hd
      exact fun hp => h ((congrArg State.phase hd).symm.trans hp)
    · exact hd

@[simp] theorem registers_takeIn (e : Engine) (report : Option Report) :
    (e.takeIn report).registers = e.registers := by
  unfold takeIn
  cases report with
  | none => exact registers_showReady _ _
  | some r =>
    have hm (d : Engine) : ({ d with flight := d.flight.map (Flight.withRecovery · r.recovery) } :
        Engine).registers = d.registers := by
      cases hf : d.flight with
      | none => simp [registers, missionId?, execution?, hf]
      | some f => exact registers_withFlight hf rfl
    dsimp only
    split
    · rw [registers_reach, hm, registers_showReady]
      rfl
    · rw [hm, registers_showReady]
      rfl

end Engine

end Sortie.Run
