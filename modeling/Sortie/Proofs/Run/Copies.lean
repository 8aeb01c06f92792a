import Sortie.Proofs.Run.Agreement

/-!
# The copies that the engine holds

In every reachable engine the state of the run carries what the engine holds, the board shows it,
and two states told of one after the other differ (`History.copies`).

The watch is the exception.  A version of the record is taken over if it is of the loaded mission,
but the watch takes it over only if it is of the active run.  So the active record is the loaded
one exactly if it is of the same run (`Reachable.active_same_iff`), and it need not be
(`not_forall_active_same`).
-/

namespace Sortie.Run

/-- What a turn sets the availability to. -/
def Turn.availability? (t : Turn) : Option Availability :=
  match t.input with
  | .wish (.setAvailability availability) => some availability
  | _ => none

theorem availability_learn (f : Facts) (t : Turn) :
    (f.learn t.input).availability = t.availability?.getD f.availability := by
  obtain ⟨w, i, log⟩ := t
  cases i with
  | wish x => cases x <;> rfl
  | notice n => cases n <;> rfl
  | tick | poll | timeout => rfl

/-- The mission can be started unless it was last said why not. -/
theorem History.availability_eq {settings : RunSettings} {ts : List Turn} {e : Engine}
    (h : History settings ts e) :
    e.facts.availability = (ts.findSome? Turn.availability?).getD .available := by
  have hf := congrArg Facts.availability h.facts_eq
  exact hf.trans (foldr_learn availability_learn ts)

/-- The states told of in turns, the earliest first. -/
def toldStates (ts : List Turn) : List State :=
  ts.reverse.flatMap fun t => changes t.effects

/-- Each copy that is held after the turns `ts` is right. -/
structure Copies (ts : List Turn) (e : Engine) : Prop where
  loaded_iff : e.flight.isSome = true ↔ e.state ≠ .noMission ∧ e.state ≠ .failed .noMission
  record : ∀ x, e.state.execution? = some x → ∃ y, e.execution? = some y ∧ Same x y
  playing : ∀ connected x homeward, e.state = .playing connected x homeward →
    connected = e.facts.connected ∧
    homeward = e.flight.any fun f => f.latest.any f.commands.isReturning
  paused : ∀ connected x availability, e.state = .paused connected x availability →
    connected = e.facts.connected ∧
    availability = (ts.findSome? Turn.availability?).getD .available
  idle : ∀ x availability, e.state = .idle x availability →
    availability = (ts.findSome? Turn.availability?).getD .available
  shown_state : e.board.state = e.state
  shown_progress : Same e.board.progress e.progress
  shown_elapsed : e.board.elapsed = e.elapsed
  shown_distance : Same e.board.distance e.distance
  shown_ready : e.board.ready = e.facts.isReady
  /-- Two states told of one after the other are not taken for equal. -/
  told : (toldStates ts).IsChain fun s t => (s == t) = false

namespace History

variable {settings : RunSettings} {ts : List Turn} {e : Engine}

/-- The states told of lead to the present one. -/
theorem path_states (h : History settings ts e) :
    Path State.Differs .noMission (toldStates ts) e.state := by
  induction h with
  | fresh => rfl
  | @turn ts e e' t past now ih =>
    obtain ⟨e₀, hagrees⟩ := Engine.Reachable.agrees ⟨settings, ts, past⟩
    obtain ⟨e₁, rfl, hlog, h₁⟩ :=
      Engine.agrees_step hagrees (Engine.Reachable.coherent ⟨settings, ts, past⟩) now
    have htold : toldStates (t :: ts) = toldStates ts ++ changes e₁.log := by
      simp [toldStates, hlog]
    rw [htold]
    exact ih.append h₁.tracks.changes

/-- **Every copy that the engine holds is right.** -/
theorem copies (h : History settings ts e) : Copies ts e := by
  have hreachable : e.Reachable := ⟨settings, ts, h⟩
  obtain ⟨e₀, htracks, hcarries⟩ := hreachable.agrees
  have havailable := h.availability_eq
  constructor
  case loaded_iff =>
    have hloaded : e.flight.isSome = true ↔ e.registers.loaded.isSome = true := by
      rw [← not_iff_not, Bool.not_eq_true, Option.isSome_eq_false_iff, Option.isNone_iff_eq_none,
        Engine.flight_eq_none_iff]
      simp
    rw [hloaded, hreachable.coherent.loaded_iff, ne_eq, ne_eq, State.eq_noMission_iff,
      State.eq_failed_iff]
    rfl
  case record =>
    exact fun x hx => hcarries.same hx
  case playing =>
    intro connected x homeward hs
    rw [hs] at hcarries
    exact hcarries.2
  case paused =>
    intro connected x availability hs
    rw [hs] at hcarries
    exact ⟨hcarries.2.1, hcarries.2.2.trans havailable⟩
  case idle =>
    intro x availability hs
    rw [hs] at hcarries
    exact hcarries.2.trans havailable
  case shown_state => exact htracks.state
  case shown_progress => exact htracks.progress
  case shown_elapsed => exact htracks.elapsed
  case shown_distance => exact htracks.distance
  case shown_ready => exact htracks.ready
  case told => exact h.path_states.isChain.tail

end History

/-- The copies that are held while the sample is played. -/
theorem copies_departure :
    History {} (trial {} (smoothly departure)).1 (trial {} (smoothly departure)).2 ∧
    (trial {} (smoothly departure)).2.state.phase = .playing ∧
    Copies (trial {} (smoothly departure)).1 (trial {} (smoothly departure)).2 := by
  have h := history_trial {} (smoothly departure)
  exact ⟨h, by decide, h.copies⟩

/-! ### The active record -/

theorem id_of_same {x y : Execution} (h : Same x y) : x.id = y.id := by
  rcases h with rfl | h
  · rfl
  · have h : (x.mission == y.mission && (x.id == y.id && (x.rank == y.rank &&
      (x.recovery == y.recovery && x.startedAt == y.startedAt)))) = true := h
    simp only [Bool.and_eq_true, beq_iff_eq] at h
    exact h.2.1

namespace Engine

variable {e : Engine}

/-- **The active record is the loaded one, and the one that the state carries, exactly if it is of
the same run.** -/
theorem Reachable.active_same_iff (h : e.Reachable) {x : Execution} (hx : e.watch = .active x) :
    ∃ f y, e.flight = some f ∧ e.state.execution? = some y ∧ Same y f.record ∧
      (Same x f.record ∧ Same x y ↔ x.id = f.record.id) := by
  obtain ⟨settings, ts, hts⟩ := h
  obtain ⟨e₀, htracks, -⟩ := Reachable.agrees ⟨settings, ts, hts⟩
  obtain ⟨f, hf, hsame⟩ := htracks.watch x hx
  have hflying := (Reachable.coherent ⟨settings, ts, hts⟩).flying_of_active
    ((Watch.hasActive_iff _).mp (by rw [hx]; rfl))
  obtain ⟨y, hy⟩ : ∃ y, e.state.execution? = some y := by
    rcases (State.isFlying_iff e.state).mp hflying with ⟨c, y, b, hs⟩ | ⟨y, hs⟩ <;>
      exact ⟨y, by rw [hs]; rfl⟩
  obtain ⟨g, hg, hcarried⟩ := Reachable.carried ⟨settings, ts, hts⟩ hy
  obtain rfl := Option.some.inj (hf.symm.trans hg)
  refine ⟨f, y, hf, hy, hcarried, fun hboth => id_of_same hboth.1, fun hid => ?_⟩
  exact ⟨hsame hid, (hsame hid).trans hcarried.symm⟩

end Engine

/-- The second run of the sample. -/
def rerun : Execution :=
  { sample with id := "field 2", rank := 2 }

/-- The sample is played, and its record is replaced by that of its second run. -/
def replaced : Engine :=
  (trial {} (smoothly (departure ++ [.wish (.update rerun)]))).2

theorem active_replaced :
    replaced.Reachable ∧ replaced.watch = .active sample ∧
    ∃ f y, replaced.flight = some f ∧ replaced.state.execution? = some y ∧ Same y f.record ∧
      (Same sample f.record ∧ Same sample y ↔ sample.id = f.record.id) := by
  have h : replaced.Reachable := reachable_trial _ _
  have hwatch : replaced.watch = .active sample := by decide
  exact ⟨h, hwatch, h.active_same_iff hwatch⟩

/-- The watch stays on the first run of a mission whose record is replaced by that of the second
one. -/
theorem not_forall_active_same :
    ¬ ∀ (e : Engine) x, e.Reachable → e.watch = .active x →
      ∃ y z, e.execution? = some y ∧ e.state.execution? = some z ∧ Same x y ∧ Same x z := by
  intro hall
  obtain ⟨y, z, hy, -, hsame, -⟩ := hall replaced sample (reachable_trial _ _) (by decide)
  obtain rfl : rerun = y := by
    have hloaded : replaced.execution? = some rerun := by decide
    exact Option.some.inj (hloaded.symm.trans hy)
  exact absurd (id_of_same hsame) (by decide)

end Sortie.Run
