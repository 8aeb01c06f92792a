import Sortie.Proofs.Mission.Shares
import Sortie.Proofs.Run.Agreement
import Sortie.Proofs.Run.Items
import Sortie.Proofs.Run.Unloading

/-!
# The progress that is told of

Each share told of is measured on the flight and does not stay at or below the one before it
(`Engine.Climbs`), so from a setup on the shares told of are a way up from zero (`Sequel.climbs`).
They are from `0` to `1` and none is less than one before it, as long as each is a number
(`Reachable.ascends_iff`).  What is not at or below another number may be no number, and then the
shares do not ascend; a precision whose power of ten is out of range makes it so
(`not_forall_ascends`).
-/

namespace Sortie.Run

open Decimal

/-- The shares told of in turns, the earliest first. -/
def published (ts : List Turn) : List Float :=
  ts.reverse.flatMap fun t => shares t.effects

/-- The shares are from `0` to `1`, and none is less than one before it. -/
def Ascends (l : List Float) : Prop :=
  (∀ p ∈ l, 0 ≤ p ∧ p ≤ 1) ∧ l.Pairwise (· ≤ ·)

namespace Rises

variable {s : Sequence} {precision : Nat} {p q : Float}

theorem inUnit (h : Rises s precision p q) (hs : s.waypointCount ≤ 2 ^ 45)
    (hn : q.isNaN = false) : InUnit q := by
  obtain ⟨-, f, place, latest, waypoint, rfl, rfl⟩ := h
  exact inUnit_roundTo (f.share_cases hs place latest waypoint) precision hn

/-- A way up of numbers ascends. -/
theorem ascending {l : List Float} (h : Path (Rises s precision) p l q)
    (hs : s.waypointCount ≤ 2 ^ 45) (hp : InUnit p) (hn : ∀ r ∈ l, r.isNaN = false) :
    (∀ r ∈ l, InUnit r ∧ p ≤ r) ∧ l.Pairwise (· ≤ ·) := by
  induction l generalizing p with
  | nil => simp
  | cons r l ih =>
    obtain ⟨hr, hl⟩ := List.forall_mem_cons.mp hn
    have hunit : InUnit r := h.1.inUnit hs hr
    have hle : p ≤ r := hp.le_of_not_le hunit h.1.1
    obtain ⟨hmem, hpairs⟩ := ih h.2 hunit hl
    constructor
    · refine List.forall_mem_cons.mpr ⟨⟨hunit, hle⟩, fun t ht => ?_⟩
      obtain ⟨htunit, hrt⟩ := hmem t ht
      exact ⟨htunit, hp.le_trans hunit htunit hle hrt⟩
    · exact List.pairwise_cons.mpr ⟨fun t ht => (hmem t ht).2, hpairs⟩

end Rises

namespace Engine

variable {e e' e₀ e₁ : Engine} {w : Outlook} {log : List Effect} {l m : List Float}

theorem MayRise.flight {p q : Float} (h : e.MayRise p q) : e.flight ≠ none := by
  obtain ⟨f, hf, -⟩ := h
  rw [hf]
  exact Option.some_ne_none f

theorem loaded?_of_not_loads {t : Turn} (ht : t.loads = false) : t.input.loaded? = none := by
  obtain ⟨w, i, log⟩ := t
  cases i with
  | wish x =>
    cases x with
    | setup => cases ht
    | play | pause | unpause | stop | reset | catchUp | update | setAvailability => rfl
  | notice | tick | poll | timeout => rfl

theorem before_of_not_loads {t : Turn} (ht : t.loads = false) : e.before t.input = e := by
  unfold before
  rw [loaded?_of_not_loads ht]
  rfl

theorem Climbs.append (h : e₀.Climbs l e) (hs : e.settings = e₀.settings) (h' : e.Climbs m e') :
    e₀.Climbs (l ++ m) e' := by
  obtain ⟨p, hpath, hend⟩ := h
  obtain ⟨q, hpath', hend'⟩ := h'
  cases hf : e.flight with
  | none =>
    obtain rfl : m = [] := by
      cases m with
      | nil => rfl
      | cons c m => exact absurd hf hpath'.1.flight
    refine ⟨p, by rwa [List.append_nil], fun f' hf' => ?_⟩
    obtain ⟨-, f, hn, -⟩ := hend' f' hf'
    cases hf.symm.trans hn
  | some f =>
    obtain ⟨hp, f₀, hf₀, hcommands⟩ := hend f hf
    rw [progress_of_flight hf, hp] at hpath'
    have hrise {a b : Float} (hab : e.MayRise a b) : e₀.MayRise a b := by
      obtain ⟨g, hg, hrises⟩ := hab
      obtain rfl : f = g := Option.some.inj (hf.symm.trans hg)
      exact ⟨f₀, hf₀, hcommands ▸ hs ▸ hrises⟩
    refine ⟨q, hpath.append (hpath'.imp hrise), fun f' hf' => ?_⟩
    obtain ⟨hq, g, hg, hcommands'⟩ := hend' f' hf'
    obtain rfl : f = g := Option.some.inj (hf.symm.trans hg)
    exact ⟨hq, f₀, hf₀, hcommands'.trans hcommands⟩

end Engine

/-- **The shares told of from one engine on lead up from its progress.** -/
theorem Sequel.climbs {e e' : Engine} {ts : List Turn} (h : Sequel e ts e') (hr : e.Reachable)
    (hts : ∀ t ∈ ts, t.loads = false) :
    e'.settings = e.settings ∧ e.Climbs (published ts) e' := by
  induction h with
  | here => exact ⟨rfl, .refl e⟩
  | @turn ts e₁ e₂ t past now ih =>
    obtain ⟨hs, hclimbs⟩ := ih fun u hu => hts u (List.mem_cons_of_mem t hu)
    have hr₁ := past.reachable hr
    obtain ⟨e₀, hagrees⟩ := hr₁.agrees
    obtain ⟨d, rfl, hlog, hd⟩ := Engine.agrees_step hagrees hr₁.coherent now
    have hbefore : e₁.before t.input = e₁ := Engine.before_of_not_loads (hts t List.mem_cons_self)
    rw [hbefore] at hd
    have htold : published (t :: ts) = published ts ++ shares d.log := by
      simp [published, hlog]
    refine ⟨hd.tracks.settings.trans hs, ?_⟩
    rw [htold]
    exact hclimbs.append hs hd.tracks.shares

namespace Engine

variable {x : Execution} {s : Sequence} {ts : List Turn} {e e₀ e₁ : Engine} {w : Outlook}
  {log : List Effect}

/-- From its setup on, the progress of a mission rises from zero. -/
theorem way_of_setup {l : List Float} {p : Float} (hr : e.Reachable)
    (hset : e.step w (.wish (.setup x s)) = .ok (e₀, log)) (h : Path e₀.MayRise e₀.progress l p) :
    Path (Rises s e.settings.precision) 0 l p := by
  have hf : e₀.flight = some (.load x s) := flight_of_setup hset
  obtain ⟨d, hd⟩ := hr.agrees
  obtain ⟨e', rfl, -, hagrees⟩ := agrees_step hd hr.coherent hset
  have hsettings : e'.settings = e.settings := hagrees.tracks.settings
  rw [progress_of_flight hf] at h
  refine h.imp fun ⟨f, hg, hrises⟩ => ?_
  obtain rfl : Flight.load x s = f := Option.some.inj (hf.symm.trans hg)
  exact hsettings ▸ hrises

/-- **The shares told of from the setup of a mission on ascend exactly if each is a number.**  Each
is a share of a flight with the commands of the mission, rounded, and it is no number exactly if the
power of ten is out of range or the share itself is none.  As long as the mission is loaded, the
last share told of is the one that is shown.  A hundred times the number of waypoints is to be an
exact number, or a percentage could be more than a hundred. -/
theorem Reachable.ascends_iff (hr : e.Reachable)
    (hset : e.step w (.wish (.setup x s)) = .ok (e₀, log)) (h : Sequel e₀ ts e₁)
    (hts : ∀ t ∈ ts, t.loads = false) (hs : s.waypointCount ≤ 2 ^ 45) :
    (Ascends (published ts) ↔ ∀ p ∈ published ts, p.isNaN = false) ∧
      (∀ p ∈ published ts, ∃ (f : Flight) (place : Option Geo.Point) (latest waypoint : Nat),
        f.commands = s ∧ p = roundTo (f.share place latest waypoint) e.settings.precision ∧
          (p.isNaN = true ↔ ¬ InRange e.settings.precision ∨
            (f.share place latest waypoint).isNaN = true)) ∧
      (e₁.flight.isSome = true →
        Same e₁.board.progress ((published ts).getLast?.getD 0)) := by
  obtain ⟨-, p, hclimbs, hend⟩ := h.climbs (hr.step hset) hts
  have hway := way_of_setup hr hset hclimbs
  refine ⟨?_, fun q hq => ?_, fun hloaded => ?_⟩
  · constructor
    · exact fun hascends q hq => (inUnit_iff.mpr (hascends.1 q hq)).isNaN_eq
    · intro hn
      have hzero : InUnit 0 := ⟨0, reads_natZero, zero_le_one⟩
      obtain ⟨hunit, hpairs⟩ := Rises.ascending hway hs hzero hn
      exact ⟨fun q hq => inUnit_iff.mp (hunit q hq).1, hpairs⟩
  · obtain ⟨r, -, f, place, latest, waypoint, rfl, rfl⟩ := hway.exists_of_mem hq
    exact ⟨f, place, latest, waypoint, rfl, rfl,
      isNaN_roundTo_iff (f.share_cases hs place latest waypoint) _⟩
  · obtain ⟨f, hf⟩ := Option.isSome_iff_exists.mp hloaded
    obtain ⟨d, hd⟩ := (h.reachable (hr.step hset)).agrees
    rw [← hway.end_eq, ← (hend f hf).1, ← progress_of_flight hf]
    exact hd.tracks.progress

end Engine

/-! ### Samples -/

/-- The first waypoint of the tour is reached, and then the second one. -/
def ascent : List Input :=
  [reportIdle, .notice (.camera .ready), .wish .play, reportItem 1, .tick, reportItem 2, .tick]

/-- The turns and the engine that come of the ascent after the setup of the tour. -/
def ascended (precision : Nat) : List Turn × Engine :=
  (smoothly ascent).foldl extend
    ([], { ({ settings := { precision } } : Engine).setup sample tour with log := [] })

theorem sequel_ascended (precision : Nat) :
    ∃ (e e₀ : Engine) (log : List Effect), e.Reachable ∧ e.settings.precision = precision ∧
      e.step {} (.wish (.setup sample tour)) = .ok (e₀, log) ∧
      Sequel e₀ (ascended precision).1 (ascended precision).2 :=
  ⟨{ settings := { precision } }, _, _, ⟨_, [], .fresh⟩, rfl, Engine.step_of_handle rfl,
    sequel_foldl_extend (smoothly ascent) .here⟩

theorem ascends_ascent :
    published (ascended 4).1 = [0.5, 1] ∧ Ascends (published (ascended 4).1) := by
  obtain ⟨e, e₀, log, hr, -, hset, h⟩ := sequel_ascended 4
  have hts : ∀ t ∈ (ascended 4).1, t.loads = false := by decide +kernel
  have hnumbers : ∀ p ∈ published (ascended 4).1, p.isNaN = false := by decide +kernel
  exact ⟨by decide +kernel, (hr.ascends_iff hset h hts (by decide)).1.mpr hnumbers⟩

/-- With four hundred decimal places no share told of is a number. -/
theorem not_forall_ascends :
    ¬ ∀ (e e₀ e₁ : Engine) x s ts w log, e.Reachable →
      e.step w (.wish (.setup x s)) = .ok (e₀, log) → Sequel e₀ ts e₁ →
      (∀ t ∈ ts, t.loads = false) → Ascends (published ts) := by
  intro hall
  obtain ⟨e, e₀, log, hr, -, hset, h⟩ := sequel_ascended 400
  have hts : ∀ t ∈ (ascended 400).1, t.loads = false := by decide +kernel
  have hascends := hall e e₀ _ sample tour _ {} log hr hset h hts
  have hnone : ∃ p ∈ published (ascended 400).1, ¬ 0 ≤ p := by decide +kernel
  obtain ⟨p, hp, hnot⟩ := hnone
  exact hnot (hascends.1 p hp).1

end Sortie.Run
