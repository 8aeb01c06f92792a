import Sortie.Proofs.Run.Registers
import Sortie.Proofs.Run.History

/-!
# The account of a flight

Besides the registers a run keeps an account: the record of the loaded mission with what was
accepted for it, and the entries in the log that tell of it.  `Engine.account` reads it off.  What
is only shown of a flight, its time, progress and distance, is left out (`Flight.core`), so most
operations keep the account.

An input first brings something (`Engine.brought`): a report may bring an item, and the pilot
another version of the record.  How the run goes on from there is one of three things
(`Continues`): the account is kept, and then the run does not come to a halt; or it is paused or
over, and the record is brought up to date; or it is unloaded.
-/

namespace Sortie.Run

namespace Phase

/-- The run is paused or over. -/
def IsHalted (p : Phase) : Prop :=
  p = paused ∨ p = ended

instance (p : Phase) : Decidable p.IsHalted :=
  inferInstanceAs (Decidable (_ ∨ _))

end Phase

/-- What a log tells of a record. -/
inductive Entry where
  | reached (item : Nat)
  | recorded (x : Execution)
  deriving DecidableEq, Repr

def Effect.told? : Effect → Option Entry
  | .event (.itemReached item) => some (.reached item)
  | .event (.recorded x) => some (.recorded x)
  | .event (.stateChanged _) | .event (.progressed ..) | .event (.returnUnconfirmed _) | .order ..
  | .show _ => none

def entries (log : List Effect) : List Entry :=
  log.filterMap Effect.told?

namespace Flight

/-- The flight without what is only shown of it. -/
def core (f : Flight) : Flight :=
  { f with elapsed := .zero, progress := 0, distance := 0 }

/-- An item is accepted.  While the mission is played it goes into the record. -/
def accept (f : Flight) (playing : Bool) (item : Nat) : Flight :=
  { f with
    latest := some item
    record := if playing then f.record.mark f.commands item else f.record }

/-- Another version of the record. -/
def withRecord (f : Flight) (x : Execution) : Flight :=
  { f with record := x, floor := x.cursor.lastItem }

theorem cursor_committed (f : Flight) :
    f.committed.cursor = match f.latest with
      | some item => f.record.cursor.mark f.commands item
      | none => f.record.cursor := by
  unfold committed
  cases f.latest <;> rfl

end Flight

/-- The report of an aircraft that is there. -/
def Input.report? : Input → Option Report
  | .notice (.interface report) => report
  | _ => none

/-- The furthest item that an input reports. -/
def Input.item? (i : Input) : Option Nat :=
  i.report?.bind Report.latest?

/-- The version of the record that the pilot brings. -/
def Input.update? : Input → Option Execution
  | .wish (.update x) => some x
  | _ => none

namespace Flight

/-- The item that an input reports, if it is accepted. -/
def accepted? (f : Flight) (i : Input) : Option Nat :=
  i.item?.filter (f.accepts ·)

/-- A version of the record takes its place if it is of the same mission. -/
def replace (f : Flight) (x : Execution) : Flight :=
  if f.record.missionId = x.missionId then f.withRecord x else f

/-- The flight with what a report brings. -/
def receive (f : Flight) (playing : Bool) (i : Input) : Flight :=
  let g := (f.accepted? i).elim f (f.accept playing)
  i.report?.elim g (g.withRecovery ·.recovery)

/-- The flight with what an input brings. -/
def bring (f : Flight) (playing : Bool) (i : Input) : Flight :=
  i.update?.elim (f.receive playing i) (f.receive playing i).replace

end Flight

/-- The record of a flight and what a log tells of it. -/
structure Account where
  flight : Option Flight
  entries : List Entry

/-- The account with what an input brings. -/
def Account.bring (a : Account) (playing : Bool) (i : Input) : Account :=
  match a.flight with
  | none => a
  | some f => ⟨some (f.bring playing i), a.entries ++ (f.accepted? i).toList.map .reached⟩

/-- An input that is neither a report nor a version of the record brings nothing. -/
theorem Account.bring_eq_self (a : Account) (playing : Bool) {i : Input} (hr : i.report? = none)
    (hu : i.update? = none) : a.bring playing i = a := by
  unfold bring
  split
  · rfl
  · next f hf =>
    have haccepted : f.accepted? i = none := by simp [Flight.accepted?, Input.item?, hr]
    simp [Flight.bring, Flight.receive, haccepted, hr, hu, ← hf]

/-- A mission is loaded, or a run taken over that the aircraft flies already. -/
def Input.adopts : Input → Bool
  | .wish (.setup ..) | .wish (.catchUp ..) => true
  | _ => false

namespace Engine

def account (e : Engine) : Account :=
  ⟨e.flight.map Flight.core, entries e.log⟩

variable {e e' d : Engine} {w : Outlook}

/-- The account is as before, and the run has not come to a halt. -/
structure Keeps (e e' : Engine) : Prop where
  account : e'.account = e.account
  phase : e'.state.phase.IsHalted → e'.state.phase = e.state.phase

/-- The run has come to a halt with its record brought up to date. -/
structure Halts (e e' : Engine) : Prop where
  account : ∃ f, e.account.flight = some f ∧
    e'.account = ⟨some f.commit, e.account.entries ++ [.recorded f.committed]⟩ ∧
    ∃ x, e'.state.execution? = some x ∧ (x = f.committed ∨ (x == f.committed) = true)
  phase : e'.state.phase.IsHalted

/-- How a run goes on. -/
inductive Continues (e e' : Engine) : Prop
  | keep (h : e.Keeps e')
  | halt (h : e.Halts e')
  | unload (h : e'.account = ⟨none, e.account.entries⟩) (hp : e'.state.phase = .noMission)

theorem keeps_rfl (e : Engine) : e.Keeps e := ⟨rfl, fun _ => rfl⟩

theorem Keeps.trans (h : e.Keeps d) (h' : d.Keeps e') : e.Keeps e' where
  account := h'.account.trans h.account
  phase hp := by
    have hd := h'.phase hp
    exact hd.trans (h.phase (hd ▸ hp))

theorem Keeps.continues (h : e.Keeps d) (h' : d.Continues e') : e.Continues e' := by
  cases h' with
  | keep h' => exact .keep (h.trans h')
  | halt h' => exact .halt ⟨h.account ▸ h'.account, h'.phase⟩
  | unload h' hp => exact .unload (h.account ▸ h') hp

/-! ### Operations that keep the account -/

theorem keeps_tell {x : Effect} (h : x.told? = none) (e : Engine) : e.Keeps (e.tell x) where
  account := by
    show (⟨e.flight.map Flight.core, entries (e.log ++ [x])⟩ : Account) = e.account
    simp [entries, h, account]
  phase _ := rfl

theorem account_emit (e : Engine) (x : Event) :
    (e.emit x).account
      = ⟨e.account.flight, e.account.entries ++ (Effect.event x).told?.toList⟩ := by
  show (⟨e.flight.map Flight.core, entries (e.log ++ [.event x])⟩ : Account) = _
  rw [entries, List.filterMap_append]
  cases h : (Effect.event x).told? <;> simp [account, entries, h]

theorem keeps_withFlight {f g : Flight} (hf : e.flight = some f) (hg : g.core = f.core) :
    e.Keeps { e with flight := some g } where
  account := by
    show (⟨some g.core, entries e.log⟩ : Account) = ⟨e.flight.map Flight.core, entries e.log⟩
    rw [hf, hg]
    rfl
  phase _ := rfl

theorem keeps_order (e : Engine) (w : Outlook) (o : Order) : e.Keeps (e.order w o) :=
  keeps_tell rfl e

theorem account_setState (e : Engine) (s : State) : (e.setState s).account = e.account := by
  unfold setState
  split
  · rfl
  · exact (keeps_tell rfl _).account.trans (keeps_tell (x := .show .state) rfl
      { e with state := s, board := { e.board with state := s } }).account

theorem phase_setState (e : Engine) (s : State) : (e.setState s).state.phase = s.phase :=
  congrArg Registers.phase (registers_setState e s)

theorem keeps_setState {s : State} (h : s.phase.IsHalted → s.phase = e.state.phase) :
    e.Keeps (e.setState s) where
  account := account_setState e s
  phase hp := by
    rw [phase_setState] at hp ⊢
    exact h hp

theorem keeps_setWatch (e : Engine) (v : Watch) : e.Keeps (e.setWatch v) :=
  Keeps.trans (d := { e with watch := v }) ⟨rfl, fun _ => rfl⟩ (keeps_tell rfl _)

theorem keeps_refreshWatch (e : Engine) : e.Keeps e.refreshWatch := by
  unfold refreshWatch
  split
  · exact e.keeps_setWatch _
  · exact e.keeps_rfl

/-- What is shown is told only if it changes, and does not touch the account. -/
theorem keeps_show (e : Engine) (c : Prop) [Decidable c] (b : Board) {x : Effect}
    (h : x.told? = none) : e.Keeps (if c then e else { e with board := b }.tell x) := by
  split
  · exact e.keeps_rfl
  · exact Keeps.trans (d := { e with board := b }) ⟨rfl, fun _ => rfl⟩ (keeps_tell h _)

theorem keeps_showProgress (e : Engine) (x : Float) : e.Keeps (e.showProgress x) :=
  e.keeps_show _ _ rfl

theorem keeps_showElapsed (e : Engine) (d : Clock.Span) : e.Keeps (e.showElapsed d) :=
  e.keeps_show _ _ rfl

theorem keeps_showDistance (e : Engine) (x : Float) : e.Keeps (e.showDistance x) :=
  e.keeps_show _ _ rfl

theorem keeps_showNavigating (e : Engine) (b : Bool) : e.Keeps (e.showNavigating b) :=
  e.keeps_show _ _ rfl

theorem keeps_showReady (e : Engine) (b : Bool) : e.Keeps (e.showReady b) :=
  e.keeps_show _ _ rfl

theorem keeps_advance (e : Engine) : e.Keeps e.advance := by
  unfold advance
  split
  · exact e.keeps_rfl
  · next f hf =>
    split
    · exact e.keeps_showNavigating true
    · dsimp only
      split
      · exact e.keeps_showNavigating false
      · refine (e.keeps_showNavigating false).trans ?_
        have hf : (e.showNavigating false).flight = some f := by
          unfold showNavigating
          split <;> exact hf
        refine Keeps.trans ?_ (keeps_tell rfl _)
        refine Keeps.trans ?_ (keeps_showDistance _ _)
        refine Keeps.trans ?_ (keeps_showProgress _ _)
        exact keeps_withFlight hf rfl

theorem keeps_fail (e : Engine) (f : Failure) : e.Keeps (e.fail f) := by
  unfold fail
  refine Keeps.trans (d := { e with intent := .none, settling := none, cleanUp := none })
    ⟨rfl, fun _ => rfl⟩ ((keeps_setWatch _ _).trans (keeps_setState ?_))
  simp [State.phase, Phase.IsHalted]

theorem keeps_activate (e : Engine) (w : Outlook) (item : Nat) (restart : Bool) :
    e.Keeps (e.activate w item restart) := by
  unfold activate
  split
  · exact e.keeps_rfl
  · dsimp only
    split
    · exact (e.keeps_order w _).trans (keeps_fail _ _)
    · exact e.keeps_order w _

theorem keeps_cleanUpFirst (e : Engine) (w : Outlook) (missionId resource : String) (item : Nat) :
    e.Keeps (e.cleanUpFirst w missionId resource item) := by
  unfold cleanUpFirst
  dsimp only
  split
  · exact (e.keeps_order w _).trans (keeps_fail _ _)
  · exact (e.keeps_order w _).trans ⟨rfl, fun _ => rfl⟩

theorem keeps_launch (e : Engine) (w : Outlook) : e.Keeps (e.launch w) := by
  unfold launch
  split
  · exact e.keeps_rfl
  · split
    · exact (e.keeps_setWatch _).trans (keeps_setState (by simp [State.phase, Phase.IsHalted]))
    · have hwant : e.Keeps { e with intent := .playing } := ⟨rfl, fun _ => rfl⟩
      dsimp only
      split
      · exact hwant.trans (keeps_activate _ w _ _)
      · split
        · exact hwant.trans (keeps_cleanUpFirst _ w _ _ _)
        · exact hwant.trans (keeps_activate _ w _ _)

theorem keeps_resume (e : Engine) (w : Outlook) : e.Keeps (e.resume w) := by
  unfold resume
  split
  · exact e.keeps_rfl
  · exact Keeps.trans (d := { e with intent := .playing }) ⟨rfl, fun _ => rfl⟩
      (keeps_activate _ w _ _)

theorem keeps_launchOrResume (e : Engine) (w : Outlook) (restart : Bool) :
    e.Keeps (e.launchOrResume w restart) := by
  unfold launchOrResume
  split
  · exact e.keeps_launch w
  · exact e.keeps_resume w

theorem keeps_whenSettled (e : Engine) (w : Outlook) (restart : Bool) :
    e.Keeps (e.whenSettled w restart) := by
  unfold whenSettled
  split
  · exact e.keeps_launchOrResume w restart
  · exact ⟨rfl, fun _ => rfl⟩

theorem keeps_poll (e : Engine) (w : Outlook) : e.Keeps (e.poll w) := by
  unfold poll
  split
  · exact e.keeps_rfl
  · split
    · exact Keeps.trans (d := { e with settling := none }) ⟨rfl, fun _ => rfl⟩
        (keeps_launchOrResume _ w _)
    · split
      · exact e.keeps_fail _
      · exact ⟨rfl, fun _ => rfl⟩

theorem keeps_start (e : Engine) : e.Keeps e.start := by
  unfold start
  split
  · exact e.keeps_rfl
  · refine Keeps.trans (d := { e with
        settling := none
        cleanUp := none
        facts := { e.facts with connected := true }
        counting := true }) ⟨rfl, fun _ => rfl⟩
      (((keeps_advance _).trans (keeps_setWatch _ _)).trans (keeps_setState ?_))
    simp [State.phase, Phase.IsHalted]

/-! ### Records brought up to date -/

theorem account_commit {f : Flight} (hf : e.flight = some f) :
    e.commit.account = ⟨some f.commit.core, e.account.entries ++ [.recorded f.committed]⟩ := by
  have hr := (keeps_refreshWatch { e with flight := some f.commit }).account
  unfold commit
  rw [hf]
  refine (account_emit _ _).trans ?_
  show (⟨_, _⟩ : Account) = _
  exact congrArg (fun a : Account => (⟨a.flight, a.entries ++ [.recorded f.committed]⟩ : Account)) hr

theorem exists_execution_setState (e : Engine) {s : State} {x : Execution}
    (hs : s.execution? = some x) :
    ∃ y, (e.setState s).state.execution? = some y ∧ (y = x ∨ (y == x) = true) := by
  unfold setState
  split
  · next h =>
    cases s <;> cases hc : e.state <;> rw [hc] at h <;>
      simp_all [BEq.beq, instBEqState.beq, State.execution?]
  · exact ⟨x, hs, .inl rfl⟩

theorem halts_of_commit {f : Flight} (hf : e.flight = some f)
    (hd : d.account = e.commit.account) {s : State} (hs : s.execution? = some f.committed)
    (hp : s.phase.IsHalted) : e.Halts (d.setState s) where
  account := by
    refine ⟨f.core, ?_, ?_, exists_execution_setState d hs⟩
    · exact congrArg (Option.map Flight.core) hf
    · rw [account_setState, hd, account_commit hf]
      rfl
  phase := by
    rw [phase_setState]
    exact hp

theorem commit_of_unloaded (hf : e.flight = none) : e.commit = e := by
  unfold commit
  rw [hf]

theorem continues_hold (e : Engine) : e.Continues e.hold := by
  let d : Engine := { e with counting := false, intent := .paused }
  have hd : e.Keeps d := ⟨rfl, fun _ => rfl⟩
  cases hf : d.flight with
  | none =>
    have hc : d.commit.flight = none := by rw [commit_of_unloaded hf, hf]
    have hk : e.Keeps d.commit := by rw [commit_of_unloaded hf]; exact hd
    simp only [hold, d] at hc hk ⊢
    simp only [hc]
    exact .keep hk
  | some f =>
    have hc : d.commit.flight = some f.commit := flight_commit hf
    refine hd.continues (.halt ?_)
    simp only [hold, d] at hc ⊢
    simp only [hc]
    refine halts_of_commit hf (keeps_setWatch _ _).account rfl ?_
    exact .inl rfl

theorem halts_finish {f : Flight} (hf : e.flight = some f) : e.Halts e.finish := by
  let d : Engine := { e with counting := false, settling := none, cleanUp := none }
  have hf : d.flight = some f := hf
  have hc : d.commit.flight = some f.commit := flight_commit hf
  have hd : d.Halts e.finish := by
    simp only [finish, d] at hc ⊢
    simp only [hc]
    refine halts_of_commit hf ((keeps_setWatch _ _).account.trans ?_) rfl ?_
    · split
      · exact (keeps_tell rfl _).account
      · rfl
    · exact .inr rfl
  exact ⟨hd.account, hd.phase⟩

theorem continues_finish (e : Engine) : e.Continues e.finish := by
  cases hf : e.flight with
  | some f => exact .halt (halts_finish hf)
  | none =>
    let d : Engine := { e with counting := false, settling := none, cleanUp := none }
    have hd : e.Keeps d := ⟨rfl, fun _ => rfl⟩
    have hf : d.flight = none := hf
    have hc : d.commit.flight = none := by rw [commit_of_unloaded hf, hf]
    have hk : e.Keeps d.commit := by rw [commit_of_unloaded hf]; exact hd
    simp only [finish, d] at hc hk ⊢
    simp only [hc]
    exact .keep hk

theorem continues_unload (e : Engine) : e.Continues e.unload := by
  have hp : e.unload.state.phase = .noMission := congrArg Registers.phase (registers_unload e)
  refine .unload ?_ hp
  unfold unload
  dsimp only
  rw [account_setState, (keeps_showNavigating _ _).account, (keeps_showDistance _ _).account,
    (keeps_showProgress _ _).account, (keeps_showElapsed _ _).account]
  show (⟨none, entries _⟩ : Account) = _
  split
  · exact congrArg (fun a : Account => (⟨none, a.entries⟩ : Account)) (keeps_setWatch e .none).account
  · rfl

/-! ### What an input brings -/

theorem account_reach {f : Flight} (hf : e.flight = some f) (item : Nat) :
    (e.reach item).account =
      if f.accepts item then
        ⟨some (f.core.accept (e.state.phase = .playing) item), e.account.entries ++ [.reached item]⟩
      else e.account := by
  simp only [reach, hf]
  split
  · let d : Engine := { e with flight := some { f with latest := some item } }
    have hemit : (d.emit (.itemReached item)).account
        = ⟨some { f with latest := some item }.core, e.account.entries ++ [.reached item]⟩ :=
      account_emit d _
    split
    · next connected x homeward hs =>
      have hp : e.state.phase = .playing := congrArg State.phase hs
      rw [account_setState, (keeps_refreshWatch _).account, decide_eq_true hp]
      exact congrArg (fun a : Account => (⟨_, a.entries⟩ : Account)) hemit
    · next hs =>
      have hp : e.state.phase ≠ .playing := by
        intro hp
        cases hc : e.state with
        | playing connected x homeward => exact hs connected x homeward hc
        | _ => simp [hc, State.phase] at hp
      rw [decide_eq_false hp]
      exact hemit
  · rfl

/-- What an input brings before the run goes on by it. -/
def brought (e : Engine) : Input → Engine
  | .notice (.interface report) => e.takeIn report
  | .wish (.update x) => e.update x
  | _ => e

theorem account_of_unloaded (hf : e.flight = none) : e.account = ⟨none, entries e.log⟩ := by
  unfold account
  rw [hf]
  rfl

theorem account_of_loaded {f : Flight} (hf : e.flight = some f) :
    e.account = ⟨some f.core, entries e.log⟩ := by
  unfold account
  rw [hf]
  rfl

theorem account_update (e : Engine) (x : Execution) (playing : Bool) :
    (e.update x).account = e.account.bring playing (.wish (.update x)) := by
  cases hf : e.flight with
  | none => simp [update, hf, account_of_unloaded hf, Account.bring]
  | some f =>
    have hbring : f.core.bring playing (.wish (.update x)) = f.core.replace x := rfl
    have haccepted : f.core.accepted? (.wish (.update x)) = none := rfl
    have hid : f.core.record.missionId = f.record.missionId := rfl
    rw [account_of_loaded hf]
    simp only [Account.bring, hbring, haccepted, Option.toList, List.map_nil, List.append_nil]
    simp only [update, hf, Flight.replace, hid]
    split
    · have hr := (keeps_refreshWatch { e with flight := some (f.withRecord x) }).account
      split
      · exact (account_setState _ _).trans hr
      · exact hr
    · exact account_of_loaded hf

theorem phase_update (e : Engine) (x : Execution) :
    (e.update x).state.phase = e.state.phase := by
  unfold update
  split
  · rfl
  · next f _ =>
    have hr := congrArg Registers.phase
      (registers_refreshWatch { e with flight := some (f.withRecord x) })
    dsimp only
    split
    · split
      · rw [phase_setState, State.phase_withExecution]
        exact hr
      · exact hr
    · rfl

theorem account_takeIn_some (e : Engine) (r : Report) :
    (e.takeIn (some r)).account
      = e.account.bring (e.state.phase = .playing) (.notice (.interface (some r))) := by
  let g : Engine := { e with facts := { e.facts with report := some r } }.showReady r.isReady
  let g' : Engine := { g with flight := g.flight.map (Flight.withRecovery · r.recovery) }
  have hg : g.account = e.account := (keeps_showReady _ _).account
  have hp : g'.state.phase = e.state.phase := congrArg State.phase (state_showReady _ _)
  have htaken : e.takeIn (some r) = r.latest?.elim g' g'.reach := by
    cases hl : r.latest? <;> simp only [takeIn, hl] <;> rfl
  rw [htaken, ← hg]
  cases hf : g.flight with
  | none =>
    have hf' : g'.flight = none := congrArg (Option.map (Flight.withRecovery · r.recovery)) hf
    have hreach (item : Nat) : g'.reach item = g' := by simp only [reach, hf']
    rw [account_of_unloaded hf]
    cases r.latest? with
    | none => exact account_of_unloaded hf'
    | some item =>
      refine Eq.trans (congrArg account (hreach item)) ?_
      exact account_of_unloaded hf'
  | some f =>
    have hf' : g'.flight = some (f.withRecovery r.recovery) :=
      congrArg (Option.map (Flight.withRecovery · r.recovery)) hf
    have hquiet : g'.account = ⟨some (f.core.withRecovery r.recovery), entries g.log⟩ :=
      account_of_loaded hf'
    have haccepted : f.core.accepted? (.notice (.interface (some r)))
        = r.latest?.filter (f.accepts ·) := rfl
    have hbring (playing : Bool) : f.core.bring playing (.notice (.interface (some r)))
        = ((r.latest?.filter (f.accepts ·)).elim f.core (f.core.accept playing)).withRecovery
            r.recovery := rfl
    rw [account_of_loaded hf]
    simp only [Account.bring, hbring, haccepted]
    cases hl : r.latest? with
    | none => simpa [hl] using hquiet
    | some item =>
      have haccepts : (f.withRecovery r.recovery).accepts item = f.accepts item := rfl
      refine Eq.trans (account_reach hf' item) ?_
      rw [haccepts, hquiet, hp, Option.filter_some]
      cases f.accepts item with
      | true => rfl
      | false => simp

theorem account_brought (e : Engine) (i : Input) :
    (e.brought i).account = e.account.bring (e.state.phase = .playing) i := by
  unfold brought
  split
  · next report =>
    cases report with
    | none =>
      rw [Account.bring_eq_self _ _ rfl rfl]
      exact (keeps_showReady _ _).account
    | some r => exact account_takeIn_some e r
  · exact account_update e _ _
  · next hreport hupdate =>
    refine (Account.bring_eq_self _ _ ?_ ?_).symm
    · unfold Input.report?
      split
      · exact absurd rfl (hreport _)
      · rfl
    · unfold Input.update?
      split
      · exact absurd rfl (hupdate _)
      · rfl

theorem phase_brought (e : Engine) (i : Input) : (e.brought i).state.phase = e.state.phase := by
  unfold brought
  split
  · exact congrArg Registers.phase (registers_takeIn e _)
  · exact phase_update e _
  · rfl

/-! ### How a run goes on -/

theorem keeps_play (e : Engine) (w : Outlook) : e.Keeps (e.play w) := by
  unfold play
  split
  · exact keeps_setState (by simp [State.phase, Phase.IsHalted])
  · split
    · exact e.keeps_rfl
    · exact e.keeps_rfl
    · split
      · exact ((keeps_tell rfl e).trans (keeps_setWatch _ _)).trans (keeps_whenSettled _ w true)
      · exact keeps_setState (by simp [State.phase, Phase.IsHalted])

theorem keeps_pause (e : Engine) (w : Outlook) : e.Keeps (e.pause w) := by
  unfold pause
  split
  · let d : Engine := { e with counting := false, settling := none }
    have hcount : e.Keeps d := ⟨rfl, fun _ => rfl⟩
    have hwant : (d.setWatch .none).Keeps { d.setWatch .none with intent := .paused } :=
      ⟨rfl, fun _ => rfl⟩
    exact ((hcount.trans (d.keeps_setWatch .none)).trans hwant).trans (keeps_order _ w .deactivate)
  · exact e.keeps_rfl

theorem keeps_unpause (e : Engine) (w : Outlook) : e.Keeps (e.unpause w) := by
  unfold unpause
  split
  · split
    · split
      · exact e.keeps_rfl
      · exact (keeps_setWatch _ _).trans (keeps_whenSettled _ w false)
    · exact keeps_setState (by simp [State.phase, Phase.IsHalted])
  · exact e.keeps_rfl

theorem continues_stop (e : Engine) (w : Outlook) (forced : Bool) :
    e.Continues (e.stop w forced) := by
  let d : Engine := { e with counting := false, settling := none, cleanUp := none }
  have hd : e.Keeps d := ⟨rfl, fun _ => rfl⟩
  unfold stop
  dsimp only
  split
  · exact .keep hd
  · split
    · exact .keep (hd.trans (keeps_order _ w _))
    · refine (hd.trans (Keeps.trans ?_ (keeps_order { d with intent := .stopped } w .stop))).continues
        (continues_finish _)
      exact ⟨rfl, fun _ => rfl⟩

theorem continues_setAvailability (e : Engine) (a : Availability) :
    e.Continues (e.setAvailability a) := by
  let d : Engine := { e with facts := { e.facts with availability := a } }
  have hd : e.Keeps d := ⟨rfl, fun _ => rfl⟩
  unfold setAvailability
  dsimp only
  split
  · exact .keep (hd.trans (keeps_setState (by simp [State.phase, Phase.IsHalted])))
  · next connected x _ hs =>
    split
    · exact hd.continues (continues_finish d)
    · refine .keep (hd.trans (keeps_setState fun _ => ?_))
      exact (congrArg State.phase hs).symm
  · exact .keep hd

theorem continues_onIdle (e : Engine) (isPaused : Bool) : e.Continues (e.onIdle isPaused) := by
  let d : Engine := { e with counting := false }.showNavigating false
  have hcount : e.Keeps { e with counting := false } := ⟨rfl, fun _ => rfl⟩
  have hd : e.Keeps d := hcount.trans (keeps_showNavigating _ false)
  have hhold : e.Continues d.hold := hd.continues (continues_hold d)
  have hfinish : e.Continues d.finish := hd.continues (continues_finish d)
  unfold onIdle
  dsimp only
  split
  · split
    · exact hhold
    · split
      · exact hhold
      · exact hfinish
    · exact hfinish
    · exact hfinish
  · split
    · exact hhold
    · split
      · exact hhold
      · exact hfinish
    · exact hfinish
    · exact hfinish
  · split
    · exact .keep hd
    · exact hfinish
  · exact .keep hd

theorem continues_onActive (e : Engine) (w : Outlook) : e.Continues (e.onActive w) := by
  have hself : e.Continues e := .keep e.keeps_rfl
  have hstart : e.Continues e.start := .keep e.keeps_start
  have horder (o : Order) : e.Continues (e.order w o) := .keep (e.keeps_order w o)
  have hstopped : e.Continues (e.order w .stop).unload :=
    (e.keeps_order w .stop).continues (continues_unload _)
  unfold onActive
  repeat' split
  all_goals first | exact hself | exact hstart | exact hstopped | exact horder _

theorem keeps_onReturnHome (e : Engine) (w : Outlook) (active : Bool) (reason : ReturnReason) :
    e.Keeps (e.onReturnHome w active reason) := by
  unfold onReturnHome
  split
  · split
    · exact keeps_setState (by simp [State.phase, Phase.IsHalted])
    · exact keeps_setState (by simp [State.phase, Phase.IsHalted])
    all_goals first | exact e.keeps_rfl | skip
    all_goals split
    all_goals first | exact e.keeps_rfl | exact e.keeps_order w _
  · exact e.keeps_rfl

theorem keeps_onConnection (e : Engine) (connected : Bool) : e.Keeps (e.onConnection connected) := by
  let d : Engine := { e with facts := { e.facts with connected } }
  have hd : e.Keeps d := ⟨rfl, fun _ => rfl⟩
  unfold onConnection
  dsimp only
  split
  · split
    · exact hd
    · exact hd.trans (keeps_setState (by simp [State.phase, Phase.IsHalted]))
  · next hs =>
    split
    · exact hd
    · exact hd.trans (keeps_setState fun _ => (congrArg State.phase hs).symm)
  · exact hd

theorem keeps_onCamera (e : Engine) (w : Outlook) (camera : Camera) :
    e.Keeps (e.onCamera w camera) := by
  have hd : e.Keeps { e with facts := { e.facts with camera } } := ⟨rfl, fun _ => rfl⟩
  unfold onCamera
  dsimp only
  split
  · exact hd.trans (keeps_poll _ w)
  · exact hd

theorem keeps_onCleanedUp (e : Engine) (w : Outlook) (missionId : String) (result : CleanUpResult) :
    e.Keeps (e.onCleanedUp w missionId result) := by
  have hd : e.Keeps { e with cleanUp := none } := ⟨rfl, fun _ => rfl⟩
  unfold onCleanedUp
  split
  · exact e.keeps_rfl
  · split
    · dsimp only
      split
      · split
        · exact hd.trans (keeps_activate _ w _ _)
        · exact hd.trans (keeps_fail _ _)
      · exact hd
    · exact e.keeps_rfl

theorem keeps_timeout (e : Engine) (w : Outlook) (missionId : String) :
    e.Keeps (e.timeout w missionId) := by
  unfold timeout
  split
  · refine Keeps.trans (d := { e with settling := none, cleanUp := none, intent := .stopped })
      ⟨rfl, fun _ => rfl⟩ ?_
    refine ((keeps_order _ w _).trans (keeps_setWatch _ _)).trans (keeps_setState ?_)
    simp [State.phase, Phase.IsHalted]
  · exact e.keeps_rfl

theorem keeps_tick (h : e.tick = .ok e') : e.Keeps e' := by
  unfold tick at h
  split at h
  · cases h
    exact e.keeps_rfl
  · next f hf =>
    split at h
    · cases ht : f.elapsed.add e.settings.tick with
      | error fault => rw [ht] at h; cases h
      | ok elapsed =>
        rw [ht] at h
        cases h
        have hflight : e.Keeps { e with flight := some { f with elapsed } } :=
          keeps_withFlight hf rfl
        exact (hflight.trans (keeps_showElapsed _ _)).trans (keeps_advance _)
    · cases h
      exact e.keeps_rfl

/-- **What an input does to the account.**  First it brings what it brings, and then the run is
kept, comes to a halt or is unloaded. -/
theorem continues_handle {i : Input} (hi : i.adopts = false) (h : e.handle w i = .ok e') :
    (e.brought i).Continues e' := by
  cases i with
  | tick => exact .keep (keeps_tick h)
  | poll => cases h; exact .keep (e.keeps_poll w)
  | timeout missionId => cases h; exact .keep (e.keeps_timeout w missionId)
  | wish x =>
    cases h
    cases x with
    | setup | catchUp => cases hi
    | play => exact .keep (e.keeps_play w)
    | pause => exact .keep (e.keeps_pause w)
    | unpause => exact .keep (e.keeps_unpause w)
    | stop forced => exact e.continues_stop w forced
    | reset => exact e.continues_unload
    | update x => exact .keep (keeps_rfl _)
    | setAvailability a => exact e.continues_setAvailability a
  | notice n =>
    cases h
    cases n with
    | interface report =>
      show (e.takeIn report).Continues (e.onInterface w report)
      rw [onInterface_eq]
      split
      · exact continues_onActive _ w
      · exact continues_onIdle _ _
    | returnHome active reason => exact .keep (e.keeps_onReturnHome w active reason)
    | connection connected => exact .keep (e.keeps_onConnection connected)
    | landed | position => exact .keep ⟨rfl, fun _ => rfl⟩
    | camera camera => exact .keep (e.keeps_onCamera w camera)
    | cleanedUp missionId result => exact .keep (e.keeps_onCleanedUp w missionId result)

end Engine

end Sortie.Run
