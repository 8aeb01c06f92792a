import Sortie.Command.Waylist
import Sortie.Proofs.Decimal.Counts
import Sortie.Proofs.Plan.Reread

/-!
# Commands are read from their items

The item of a command reads as that command (`Command.ofItem_toItem`), as long as the counts in it
keep to 32 bits.  Those of a command that comes from an item do (`Command.fits_of_ofItem`).
-/

namespace Sortie

theorem exists_of_bind_eq_ok {ε α β : Type} {x : Except ε α} {f : α → Except ε β} {b : β}
    (h : (x >>= f) = .ok b) : ∃ a, x = .ok a ∧ f a = .ok b := by
  cases x with
  | error fault => cases h
  | ok a => exact ⟨a, rfl, h⟩

theorem toCount_ofNat {n : Nat} (h : n ≤ 4294967295) : toCount (Decimal.ofNat n) = n :=
  Decimal.toNatUpTo_ofNat h (by omega)

theorem toCount_le (x : Float) : toCount x ≤ 4294967295 := by
  unfold toCount Decimal.toNatUpTo Decimal.toIntWithin
  split
  · dsimp only
    omega
  · split <;> decide
  · decide

namespace ViewMode

/-- An index keeps to 32 bits. -/
def Fits : ViewMode → Prop
  | .target index => index ≤ 4294967295
  | _ => True

theorem ofParams_params {v : ViewMode} (h : v.Fits) : ofParams v.params = .ok v := by
  have hmode {n : Nat} (hn : n ≤ 2) :
      Decimal.toIntWithin (-9223372036854775808) 9223372036854775807 (Decimal.ofNat n) = n :=
    Decimal.toIntWithin_ofNat (by decide) (by omega) (by omega)
  unfold ofParams
  cases v with
  | absolute =>
    rw [show (params .absolute).a = Decimal.ofNat 0 by decide, hmode (by decide)]
    rfl
  | ahead =>
    rw [show (params .ahead).a = Decimal.ofNat 1 by decide, hmode (by decide)]
    rfl
  | target index =>
    have htwo : (params (.target index)).a = Decimal.ofNat 2 := by
      show (2 : Float) = Decimal.ofNat 2
      decide
    rw [htwo, hmode (by decide)]
    exact congrArg (fun n => Except.ok (ViewMode.target n)) (toCount_ofNat h)

theorem fits_of_ofParams {p : Params} {v : ViewMode} (h : ofParams p = .ok v) : v.Fits := by
  unfold ofParams at h
  split at h
  · obtain rfl := Except.ok.inj h
    trivial
  · obtain rfl := Except.ok.inj h
    trivial
  · obtain rfl := Except.ok.inj h
    exact toCount_le _
  · cases h

end ViewMode

namespace Command

/-- The counts of a command keep to 32 bits. -/
def Fits : Command → Prop
  | .view mode => mode.Fits
  | .startPhotos _ count => count ≤ 4294967295
  | .stillMode mode _ => mode ≤ 4294967295
  | _ => True

theorem ofItem_toItem {c : Command} (h : c.Fits) : ofItem c.toItem = .ok c := by
  cases c with
  | waypoint place altitude yaw hold frame => cases frame <;> rfl
  | lookAt place altitude frame => cases frame <;> rfl
  | view mode =>
    show (do return Command.view (← ViewMode.ofParams mode.params)) = _
    rw [ViewMode.ofParams_params h]
    rfl
  | triggerDistance metres once =>
    have honce : ((if once then (1 : Float) else 0) != 0) = once := by
      cases once <;> decide
    exact congrArg (fun once => Except.ok (Command.triggerDistance metres once)) honce
  | startPhotos interval count =>
    show Except.ok (Command.startPhotos interval (toCount (Decimal.ofNat count))) = _
    rw [toCount_ofNat h]
  | stillMode mode interval =>
    show Except.ok (Command.stillMode (toCount (Decimal.ofNat mode)) interval) = _
    rw [toCount_ofNat h]
  | _ => rfl

theorem fits_of_ofItem {i : Item} {c : Command} (h : ofItem i = .ok c) : c.Fits := by
  unfold ofItem at h
  split at h
  case h_1 =>
    obtain ⟨frame, -, h⟩ := exists_of_bind_eq_ok h
    obtain rfl := Except.ok.inj h
    trivial
  case h_7 =>
    obtain ⟨frame, -, h⟩ := exists_of_bind_eq_ok h
    obtain rfl := Except.ok.inj h
    trivial
  case h_9 =>
    obtain ⟨mode, hmode, h⟩ := exists_of_bind_eq_ok h
    obtain rfl := Except.ok.inj h
    exact ViewMode.fits_of_ofParams hmode
  case h_13 =>
    obtain rfl := Except.ok.inj h
    exact toCount_le _
  case h_18 =>
    obtain rfl := Except.ok.inj h
    exact toCount_le _
  case h_19 => cases h
  all_goals
    obtain rfl := Except.ok.inj h
    trivial

theorem command_toItem (c : Command) : c.toItem.command = c.id := by
  cases c <;> rfl

theorem frame_toItem_le (c : Command) : c.toItem.frame ≤ 3 := by
  have hframe (frame : Frame) : frame.id ≤ 3 := by cases frame <;> decide
  have hplain : Frame.ofMission ≤ 3 := by decide
  cases c with
  | waypoint place altitude yaw hold frame => exact hframe frame
  | lookAt place altitude frame => exact hframe frame
  | _ => exact hplain

/-- The numbers of commands and frames are small. -/
theorem fits_toItem (c : Command) : c.toItem.Fits := by
  have hid : c.id ≤ 65535 := by
    unfold id
    split <;> omega
  exact ⟨c.command_toItem ▸ hid, Nat.le_trans c.frame_toItem_le (by decide)⟩

end Command

/-- All commands of a sequence keep to their types. -/
def Sequence.Fits (s : Sequence) : Prop :=
  ∀ c ∈ s, c.Fits

namespace Sequence.Fits

variable {s t : Sequence} {c : Command}

theorem nil : Fits [] := by
  intro c hc
  cases hc

theorem cons (hc : c.Fits) (hs : Fits s) : Fits (c :: s) :=
  List.forall_mem_cons.mpr ⟨hc, hs⟩

theorem append (hs : Fits s) (ht : Fits t) : Fits (s ++ t) :=
  List.forall_mem_append.mpr ⟨hs, ht⟩

end Sequence.Fits

namespace Sequence

theorem ofItems_toItems {s : Sequence} (h : s.Fits) : ofItems s.toItems = .ok s := by
  induction s with
  | nil => rfl
  | cons c s ih =>
    have hhead := Command.ofItem_toItem (h c List.mem_cons_self)
    have htail := ih fun d hd => h d (List.mem_cons_of_mem c hd)
    unfold ofItems toItems at htail ⊢
    rw [List.map_cons, List.mapM_cons, hhead, htail]
    rfl

theorem fits_of_ofItems {is : List Item} {s : Sequence} (h : ofItems is = .ok s) : s.Fits := by
  induction is generalizing s with
  | nil =>
    obtain rfl := Except.ok.inj h
    exact .nil
  | cons i is ih =>
    unfold ofItems at h
    rw [List.mapM_cons] at h
    obtain ⟨c, hhead, h⟩ := exists_of_bind_eq_ok h
    obtain ⟨s', htail, h⟩ := exists_of_bind_eq_ok h
    obtain rfl := Except.ok.inj h
    exact .cons (Command.fits_of_ofItem hhead) (ih htail)

end Sequence

theorem Waylist.fits_of_read {text : List Char} {s : Sequence} (h : Waylist.read text = .ok s) :
    s.Fits := by
  unfold Waylist.read at h
  split at h
  · cases h
  · split at h
    · obtain ⟨items, -, h⟩ := exists_of_bind_eq_ok h
      exact Sequence.fits_of_ofItems h
    · cases h

end Sortie
