import Sortie.Run.Step

/-!
# Histories of a run

`History settings ts e` says that the turns `ts`, the latest first, lead from a fresh engine with
these settings to the engine `e`.  Each turn has an outlook of its own, so neither the take-off
guard nor the answers of the aircraft are fixed along a history.  An engine is `Reachable` if it
has a history; what holds of a fresh engine and is kept by each step holds of every reachable
engine (`Reachable.induction`).  A `Sequel` leads on from an engine as a history leads up to it.

`trial` computes the history of given moves, and the samples are moves for it.
-/

namespace Sortie.Run

/-- A step of a run: what the engine met, what it was given, and what it did. -/
structure Turn where
  outlook : Outlook
  input : Input
  effects : List Effect

/-- The pilot asks for a mission to be flown. -/
def Turn.asks (t : Turn) : Bool :=
  match t.input with
  | .wish .play | .wish .unpause => true
  | _ => false

inductive History (settings : RunSettings) : List Turn → Engine → Prop
  | fresh : History settings [] { settings }
  | turn {ts : List Turn} {e e' : Engine} {t : Turn} (past : History settings ts e)
      (now : e.step t.outlook t.input = .ok (e', t.effects)) : History settings (t :: ts) e'

namespace Engine

def Reachable (e : Engine) : Prop :=
  ∃ settings ts, History settings ts e

variable {e e' : Engine} {w : Outlook} {i : Input} {log : List Effect}

theorem Reachable.step (h : e.Reachable) (hs : e.step w i = .ok (e', log)) : e'.Reachable := by
  obtain ⟨settings, ts, h⟩ := h
  exact ⟨settings, ⟨w, i, log⟩ :: ts, .turn h hs⟩

/-- **What a fresh engine has and every step keeps, every reachable engine has.** -/
theorem Reachable.induction {P : Engine → Prop} (fresh : ∀ settings, P { settings })
    (step : ∀ {e e' w i log}, e.Reachable → P e → e.step w i = .ok (e', log) → P e')
    (h : e.Reachable) : P e := by
  obtain ⟨settings, ts, h⟩ := h
  induction h with
  | fresh => exact fresh settings
  | turn past now ih => exact step ⟨settings, _, past⟩ ih now

/-- A step starts with an empty log and hands over what is in the log at its end. -/
theorem handle_of_step (h : e.step w i = .ok (e', log)) :
    ∃ e₁, ({ e with log := [] } : Engine).handle w i = .ok e₁ ∧ e' = { e₁ with log := [] } ∧
      log = e₁.log := by
  unfold Engine.step at h
  cases hh : ({ e with log := [] } : Engine).handle w i with
  | error fault => rw [hh] at h; cases h
  | ok e₁ =>
    rw [hh] at h
    cases h
    exact ⟨e₁, rfl, rfl, rfl⟩

theorem step_of_handle {e₁ : Engine} (h : ({ e with log := [] } : Engine).handle w i = .ok e₁) :
    e.step w i = .ok ({ e₁ with log := [] }, e₁.log) := by
  unfold Engine.step
  rw [h]
  rfl

end Engine

/-! ### Sequels -/

/-- The turns `ts`, the latest first, lead on from `e` to `e'`. -/
inductive Sequel (e : Engine) : List Turn → Engine → Prop
  | here : Sequel e [] e
  | turn {ts : List Turn} {e₁ e₂ : Engine} {t : Turn} (past : Sequel e ts e₁)
      (now : e₁.step t.outlook t.input = .ok (e₂, t.effects)) : Sequel e (t :: ts) e₂

namespace Sequel

variable {e e' : Engine} {ts : List Turn}

theorem reachable (h : Sequel e ts e') (he : e.Reachable) : e'.Reachable := by
  induction h with
  | here => exact he
  | turn past now ih => exact ih.step now

/-- **What every turn of a sequel keeps holds at its end, and each turn is taken where it
holds.** -/
theorem keep {P : Engine → Prop} {Q : Turn → Prop}
    (step : ∀ {e₁ e₂ t}, P e₁ → Q t → e₁.step t.outlook t.input = .ok (e₂, t.effects) → P e₂)
    (h : Sequel e ts e') (he : P e) (hts : ∀ t ∈ ts, Q t) :
    P e' ∧ ∀ t ∈ ts, ∃ e₁ e₂, P e₁ ∧ e₁.step t.outlook t.input = .ok (e₂, t.effects) := by
  induction h with
  | here => exact ⟨he, fun t ht => absurd ht List.not_mem_nil⟩
  | @turn ts e₁ e₂ t past now ih =>
    obtain ⟨h₁, hall⟩ := ih fun u hu => hts u (List.mem_cons_of_mem t hu)
    refine ⟨step h₁ (hts t List.mem_cons_self) now, fun u hu => ?_⟩
    rcases List.mem_cons.mp hu with rfl | hu
    · exact ⟨e₁, e₂, h₁, now⟩
    · exact hall u hu

end Sequel

/-- The engine that turns lead to, the latest first. -/
def Engine.after (e : Engine) : List Turn → Engine
  | [] => e
  | t :: ts =>
    match (e.after ts).step t.outlook t.input with
    | .ok (e', _) => e'
    | .error _ => e.after ts

theorem Sequel.after_eq {e e' : Engine} {ts : List Turn} (h : Sequel e ts e') : e.after ts = e' := by
  induction h with
  | here => rfl
  | turn past now ih => rw [Engine.after, ih, now]

namespace History

variable {settings : RunSettings} {ts : List Turn} {e : Engine}

theorem reachable (h : History settings ts e) : e.Reachable :=
  ⟨settings, ts, h⟩

/-- A history leads through each of its moments. -/
theorem exists_sequel {later before : List Turn} (h : History settings (later ++ before) e) :
    ∃ e₁, History settings before e₁ ∧ Sequel e₁ later e := by
  induction later generalizing e with
  | nil => exact ⟨e, h, .here⟩
  | cons t later ih =>
    cases h with
    | turn past now =>
      obtain ⟨e₁, hbefore, hlater⟩ := ih past
      exact ⟨e₁, hbefore, .turn hlater now⟩

end History

/-! ### Trials -/

/-- The history with one move more.  A move that cannot be made is passed over. -/
def extend (past : List Turn × Engine) (move : Outlook × Input) : List Turn × Engine :=
  match past.2.step move.1 move.2 with
  | .ok (e, effects) => (⟨move.1, move.2, effects⟩ :: past.1, e)
  | .error _ => past

/-- The turns and the engine that come of moves, the earliest move first. -/
def trial (settings : RunSettings) (moves : List (Outlook × Input)) : List Turn × Engine :=
  moves.foldl extend ([], { settings })

theorem history_extend {settings : RunSettings} {past : List Turn × Engine}
    (h : History settings past.1 past.2) (move : Outlook × Input) :
    History settings (extend past move).1 (extend past move).2 := by
  unfold extend
  cases hs : past.2.step move.1 move.2 with
  | ok r => exact .turn (t := ⟨move.1, move.2, r.2⟩) h hs
  | error _ => exact h

theorem history_foldl_extend {settings : RunSettings} (moves : List (Outlook × Input)) :
    ∀ {past : List Turn × Engine}, History settings past.1 past.2 →
      History settings (moves.foldl extend past).1 (moves.foldl extend past).2 := by
  induction moves with
  | nil => intro past h; exact h
  | cons move moves ih => intro past h; exact ih (history_extend h move)

theorem sequel_foldl_extend {e : Engine} (moves : List (Outlook × Input)) :
    ∀ {past : List Turn × Engine}, Sequel e past.1 past.2 →
      Sequel e (moves.foldl extend past).1 (moves.foldl extend past).2 := by
  induction moves with
  | nil => intro past h; exact h
  | cons move moves ih =>
    intro past h
    refine ih ?_
    unfold extend
    cases hs : past.2.step move.1 move.2 with
    | ok r => exact .turn (t := ⟨move.1, move.2, r.2⟩) h hs
    | error _ => exact h

theorem history_trial (settings : RunSettings) (moves : List (Outlook × Input)) :
    History settings (trial settings moves).1 (trial settings moves).2 :=
  history_foldl_extend moves .fresh

theorem reachable_trial (settings : RunSettings) (moves : List (Outlook × Input)) :
    (trial settings moves).2.Reachable :=
  ⟨settings, _, history_trial settings moves⟩

/-! ### Samples -/

/-- Moves with which everything goes well: take-off is allowed and no order refused. -/
def smoothly (inputs : List Input) : List (Outlook × Input) :=
  inputs.map fun i => ({}, i)

/-- A mission without waypoints, at its first run. -/
def sample : Execution :=
  { mission := { id := "field", name := "field", kind := .standard }
    id := "field 1"
    rank := 1
    recovery := none
    startedAt := ⟨0, 0⟩ }

def reportIdle : Input :=
  .notice (.interface (some { state := .idle }))

def reportPaused : Input :=
  .notice (.interface (some { state := .idle, isPaused := true }))

def reportActive : Input :=
  .notice (.interface (some { state := .active }))

/-- The aircraft is ready and the sample is loaded. -/
def preparation : List Input :=
  [reportIdle, .notice (.connection true), .notice (.camera .ready), .wish (.setup sample [])]

/-- The sample is played, and the aircraft takes it up. -/
def departure : List Input :=
  preparation ++ [.wish .play, reportActive]

end Sortie.Run
