import Sortie.Proofs.Command.Items

/-!
# What is wrong with an item

An item is a command if its number is that of one, its frame is known if it is at a place, and its
view is known if it sets one (`Item.IsSupported`).  Otherwise one of these fails (`Item.Faults`), and
that is the fault reported (`Command.ofItem_eq_error_iff`).  Where a list is gone through element by
element, the fault of the first element that has one is reported (`mapM_eq_error_iff`).
-/

namespace Sortie

/-! ### Element by element -/

section

variable {α β ε : Type} {P : α → ε → Prop} {f : α → Except ε β} {x : α} {xs : List α}
  {ys : List β} {e : ε}

theorem exists_eq_ok_iff {r : Except ε β} : (∃ b, r = .ok b) ↔ ∀ e, r ≠ .error e := by
  cases r with
  | error e => exact ⟨fun ⟨_, h⟩ => (by cases h), fun h => absurd rfl (h e)⟩
  | ok b => exact ⟨fun _ _ h => (by cases h), fun _ => ⟨b, rfl⟩⟩

theorem bind_eq_ok_iff {r : Except ε α} {b : β} :
    (r >>= f) = .ok b ↔ ∃ a, r = .ok a ∧ f a = .ok b := by
  refine ⟨exists_of_bind_eq_ok, ?_⟩
  rintro ⟨a, rfl, hb⟩
  exact hb

theorem bind_eq_error_iff {r : Except ε α} :
    (r >>= f) = .error e ↔ r = .error e ∨ ∃ a, r = .ok a ∧ f a = .error e := by
  cases r <;> simp [bind, Except.bind]

/-- The first element that has a fault has this one. -/
def FirstFault (P : α → ε → Prop) (xs : List α) (e : ε) : Prop :=
  ∃ before x after, xs = before ++ x :: after ∧ (∀ y ∈ before, ∀ e, ¬ P y e) ∧ P x e

theorem not_firstFault_nil : ¬ FirstFault P [] e := by
  rintro ⟨before, x, after, h, -⟩
  exact List.append_ne_nil_of_right_ne_nil before (List.cons_ne_nil x after) h.symm

theorem firstFault_cons_iff :
    FirstFault P (x :: xs) e ↔ P x e ∨ (∀ e, ¬ P x e) ∧ FirstFault P xs e := by
  constructor
  · rintro ⟨before, y, after, hxs, hnone, hy⟩
    cases before with
    | nil =>
      obtain ⟨rfl, -⟩ := List.cons.inj hxs
      exact .inl hy
    | cons z before =>
      obtain ⟨rfl, rfl⟩ := List.cons.inj hxs
      exact .inr ⟨hnone x List.mem_cons_self, before, y, after, rfl,
        fun w hw => hnone w (List.mem_cons_of_mem x hw), hy⟩
  · rintro (hx | ⟨hx, before, y, after, rfl, hnone, hy⟩)
    · exact ⟨[], x, xs, rfl, by simp, hx⟩
    · exact ⟨x :: before, y, after, rfl, List.forall_mem_cons.mpr ⟨hx, hnone⟩, hy⟩

/-- Some element has a fault exactly if there is a first one. -/
theorem forall_not_firstFault_iff :
    (∀ e, ¬ FirstFault P xs e) ↔ ∀ x ∈ xs, ∀ e, ¬ P x e := by
  induction xs with
  | nil => exact iff_of_true (fun _ => not_firstFault_nil) (by simp)
  | cons x xs ih =>
    rw [List.forall_mem_cons, ← ih]
    simp only [firstFault_cons_iff, not_or, not_and]
    exact ⟨fun h => ⟨fun e => (h e).1, fun e => (h e).2 fun e => (h e).1⟩,
      fun h e => ⟨h.1 e, fun _ => h.2 e⟩⟩

theorem mapM_eq_ok_iff : xs.mapM f = .ok ys ↔ List.Forall₂ (fun x y => f x = .ok y) xs ys := by
  induction xs generalizing ys with
  | nil =>
    rw [List.forall₂_nil_left_iff]
    exact ⟨fun h => (Except.ok.inj h).symm, fun h => h ▸ rfl⟩
  | cons x xs ih =>
    rw [List.mapM_cons, List.forall₂_cons_left_iff]
    constructor
    · intro h
      obtain ⟨y, hy, h⟩ := exists_of_bind_eq_ok h
      obtain ⟨zs, hzs, h⟩ := exists_of_bind_eq_ok h
      exact ⟨y, zs, hy, ih.mp hzs, (Except.ok.inj h).symm⟩
    · rintro ⟨y, zs, hy, hzs, rfl⟩
      rw [hy, ih.mpr hzs]
      rfl

theorem forall₂_comp_iff {γ : Type} {R : α → β → Prop} {S : β → γ → Prop} {zs : List γ} :
    List.Forall₂ (fun x z => ∃ y, R x y ∧ S y z) xs zs ↔
      ∃ ys, List.Forall₂ R xs ys ∧ List.Forall₂ S ys zs := by
  constructor
  · intro h
    induction h with
    | nil => exact ⟨[], .nil, .nil⟩
    | cons hxz _ ih =>
      obtain ⟨y, hR, hS⟩ := hxz
      obtain ⟨ys, hRs, hSs⟩ := ih
      exact ⟨y :: ys, .cons hR hRs, .cons hS hSs⟩
  · rintro ⟨ys, hR, hS⟩
    induction hR generalizing zs with
    | nil =>
      cases hS
      exact .nil
    | cons hxy _ ih =>
      cases hS with
      | cons hyz hSs => exact .cons ⟨_, hxy, hyz⟩ (ih hSs)

theorem exists_forall₂_iff {R : α → β → Prop} :
    (∃ ys, List.Forall₂ R xs ys) ↔ ∀ x ∈ xs, ∃ y, R x y := by
  induction xs with
  | nil => exact iff_of_true ⟨[], .nil⟩ (by simp)
  | cons x xs ih =>
    rw [List.forall_mem_cons, ← ih]
    simp only [List.forall₂_cons_left_iff]
    exact ⟨fun ⟨_, y, ys, hy, hys, _⟩ => ⟨⟨y, hy⟩, ys, hys⟩,
      fun ⟨⟨y, hy⟩, ys, hys⟩ => ⟨y :: ys, y, ys, hy, hys, rfl⟩⟩

theorem mapM_eq_error_iff :
    xs.mapM f = .error e ↔ FirstFault (fun x e => f x = .error e) xs e := by
  induction xs with
  | nil => exact iff_of_false (by intro h; cases h) not_firstFault_nil
  | cons x xs ih =>
    rw [List.mapM_cons, firstFault_cons_iff, ← ih]
    cases hx : f x with
    | error e' => simp [bind, Except.bind]
    | ok y => cases hxs : xs.mapM f <;> simp [bind, Except.bind, pure, Except.pure]

end

/-! ### Items that are commands -/

namespace Item

/-- Waypoints and looks at a place are at a place. -/
def IsPositional (i : Item) : Prop :=
  i.command = 16 ∨ i.command = 195

/-- The number of the view that an item sets. -/
def viewMode (i : Item) : Int :=
  Decimal.toIntWithin (-9223372036854775808) 9223372036854775807 i.params.a

/-- The number of the item is that of a command, and so is that of the frame or the view if the
command has one. -/
structure IsSupported (i : Item) : Prop where
  command : ∃ c : Command, c.id = i.command
  frame : i.IsPositional → ∃ f : Frame, f.id = i.frame
  view : i.command = 50000 → i.viewMode = 0 ∨ i.viewMode = 1 ∨ i.viewMode = 2

/-- What is wrong with an item that is no command. -/
inductive Faults (i : Item) : CommandFault → Prop
  | command (h : ¬ ∃ c : Command, c.id = i.command) : Faults i (.unsupportedCommand i.command)
  | frame (h : i.IsPositional) (hframe : ¬ ∃ f : Frame, f.id = i.frame) :
    Faults i (.unsupportedFrame i.command i.frame)
  | view (h : i.command = 50000)
    (hview : ¬ (i.viewMode = 0 ∨ i.viewMode = 1 ∨ i.viewMode = 2)) :
    Faults i (.unknownView i.viewMode)

theorem isSupported_iff {i : Item} : i.IsSupported ↔ ∀ fault, ¬ i.Faults fault := by
  constructor
  · rintro ⟨hcommand, hframe, hview⟩ fault hfault
    cases hfault with
    | command h => exact h hcommand
    | frame h hnone => exact hnone (hframe h)
    | view h hnone => exact hnone (hview h)
  · intro h
    exact ⟨not_not.mp fun hnone => h _ (.command hnone),
      fun hplace => not_not.mp fun hnone => h _ (.frame hplace hnone),
      fun hview => not_not.mp fun hnone => h _ (.view hview hnone)⟩

theorem IsPositional.exists_id {i : Item} (h : i.IsPositional) :
    ∃ c : Command, c.id = i.command := by
  rcases h with h | h
  · exact ⟨.waypoint default default default default default, h.symm⟩
  · exact ⟨.lookAt default default default, h.symm⟩

end Item

theorem Frame.ofId_eq_error_iff {command n : Nat} {fault : CommandFault} :
    ofId command n = .error fault ↔
      (¬ ∃ f : Frame, f.id = n) ∧ fault = .unsupportedFrame command n := by
  unfold ofId
  split
  · exact iff_of_false (by simp) fun h => h.1 ⟨.relative, rfl⟩
  · exact iff_of_false (by simp) fun h => h.1 ⟨.absolute, rfl⟩
  next hrelative habsolute =>
    have hnone : ¬ ∃ f : Frame, f.id = n := by
      rintro ⟨f, rfl⟩
      cases f with
      | relative => exact hrelative rfl
      | absolute => exact habsolute rfl
    exact ⟨fun h => ⟨hnone, (Except.error.inj h).symm⟩, fun h => h.2 ▸ rfl⟩

theorem ViewMode.ofParams_eq_error_iff {i : Item} {fault : CommandFault} :
    ofParams i.params = .error fault ↔
      ¬ (i.viewMode = 0 ∨ i.viewMode = 1 ∨ i.viewMode = 2) ∧ fault = .unknownView i.viewMode := by
  unfold ofParams
  generalize hmode : i.viewMode = mode
  unfold Item.viewMode at hmode
  rw [hmode]
  split
  · simp
  · simp
  · simp
  next h0 h1 h2 =>
    have hnone : ¬ (mode = 0 ∨ mode = 1 ∨ mode = 2) := not_or.mpr ⟨h0, not_or.mpr ⟨h1, h2⟩⟩
    exact ⟨fun h => ⟨hnone, (Except.error.inj h).symm⟩, fun h => h.2 ▸ rfl⟩

namespace Command

variable {i : Item} {c : Command} {fault : CommandFault}

theorem id_of_ofItem (h : ofItem i = .ok c) : c.id = i.command := by
  unfold ofItem at h
  split at h
  case h_1 hcommand | h_7 hcommand | h_9 hcommand =>
    obtain ⟨part, -, h⟩ := exists_of_bind_eq_ok h
    obtain rfl := Except.ok.inj h
    exact hcommand.symm
  case h_19 => cases h
  all_goals
    obtain rfl := Except.ok.inj h
    exact Eq.symm ‹_›

theorem faults_of_ofItem (h : ofItem i = .error fault) : i.Faults fault := by
  unfold ofItem at h
  split at h
  case h_1 hcommand | h_7 hcommand =>
    have hplace : i.IsPositional := by
      rw [Item.IsPositional, hcommand]
      decide
    rcases bind_eq_error_iff.mp h with h | ⟨frame, -, h⟩
    · obtain ⟨hnone, rfl⟩ := Frame.ofId_eq_error_iff.mp h
      exact hcommand ▸ .frame hplace hnone
    · cases h
  case h_9 hcommand =>
    rcases bind_eq_error_iff.mp h with h | ⟨mode, -, h⟩
    · obtain ⟨hnone, rfl⟩ := ViewMode.ofParams_eq_error_iff.mp h
      exact .view hcommand hnone
    · cases h
  case h_19 =>
    obtain rfl := Except.error.inj h
    refine .command ?_
    rintro ⟨c, hc⟩
    cases c <;> exact absurd hc.symm ‹_›
  all_goals cases h

/-- The fault that is reported of an item is the one that it has. -/
theorem ofItem_eq_error_iff : ofItem i = .error fault ↔ i.Faults fault := by
  refine ⟨faults_of_ofItem, fun h => ?_⟩
  cases h with
  | command hnone =>
    -- A result or any other fault would need the number of some command.
    cases hresult : ofItem i with
    | ok c => exact absurd ⟨c, id_of_ofItem hresult⟩ hnone
    | error fault =>
      cases faults_of_ofItem hresult with
      | command => rfl
      | frame hplace => exact absurd hplace.exists_id hnone
      | view hview => exact absurd ⟨.view default, hview.symm⟩ hnone
  | frame hplace hnone =>
    have hfault (command : Nat) := Frame.ofId_eq_error_iff.mpr
      ⟨hnone, Eq.refl (CommandFault.unsupportedFrame command i.frame)⟩
    rcases hplace with hcommand | hcommand
    · simp only [ofItem, hcommand, hfault]
      rfl
    · simp only [ofItem, hcommand, hfault]
      rfl
  | view hview hnone =>
    have hfault := ViewMode.ofParams_eq_error_iff.mpr ⟨hnone, rfl⟩
    simp only [ofItem, hview, hfault]
    rfl

theorem exists_ofItem_iff : (∃ c, ofItem i = .ok c) ↔ i.IsSupported := by
  rw [exists_eq_ok_iff, Item.isSupported_iff]
  simp only [ne_eq, ofItem_eq_error_iff]

end Command

end Sortie
