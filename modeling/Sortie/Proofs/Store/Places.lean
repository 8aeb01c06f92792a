import Sortie.Proofs.Store.Names

/-!
# Paths that lead to the same file

A write changes the file that its path leads to, and with it what other paths to that file read.
What the other files hold stays (`read_of_write`).

In memory two paths lead to the same file if they are the same.  In a tree of folders different
paths may do so as well, by way of two dots (`Store.Meet`).  The plan and the waypoint list of a
mission have different files as long as their endings are different and hold no slash
(`not_meet_of_plain`).
-/

namespace Sortie.Store

open Text (Bytes)

/-- Two paths lead to the same file. -/
def Meet : Store → Path → Path → Prop
  | memory _, p, q => (p == q) = true
  | directory d, p, q =>
    ∃ loc data, d.resolve p = .ok (.file loc data) ∧ d.resolve q = .ok (.file loc data)

variable {s s' : Store} {p q : Path} {data old : Bytes}

/-- **What a write leaves of a file.**  By another path to the file that was written one reads what
was written, and by a path to another file what was there. -/
theorem read_of_write (h : s.write p data = (.ok (), s')) (hq : s.read q = .ok (some old)) :
    (s'.Meet p q → s'.read q = .ok (some data)) ∧
      (¬ s'.Meet p q → s'.read q = .ok (some old)) := by
  cases s with
  | memory m =>
    obtain ⟨haccepted, rfl⟩ := Memory.write_eq_ok h
    have hread : (Store.memory (m.write p data).2).read q
        = .ok (if p == q then some data else m.get? q) :=
      congrArg Except.ok (m.get?_write p q data haccepted)
    constructor
    · intro hsame
      exact hread.trans (congrArg Except.ok (if_pos hsame))
    · intro hother
      exact hread.trans ((congrArg Except.ok (if_neg hother)).trans hq)
  | directory d =>
    obtain ⟨hok, rfl⟩ := Prod.mk.inj h
    have hwrite : d.write p data = (.ok (), (d.write p data).2) := Prod.ext hok rfl
    obtain ⟨other, hother⟩ := Directory.read_eq_some_iff.mp hq
    obtain ⟨loc, hp, hothers⟩ := Directory.resolve_of_write hwrite
    have hfound := hothers hother
    constructor
    · rintro ⟨at_, found, hfoundp, hfoundq⟩
      obtain ⟨rfl, rfl⟩ := Target.file.inj (Except.ok.inj (hp.symm.trans hfoundp))
      exact Directory.read_eq_some_iff.mpr ⟨loc, hfoundq⟩
    · intro hapart
      have hne : other ≠ loc := by
        rintro rfl
        rw [if_pos rfl] at hfound
        exact hapart ⟨other, data, hp, hfound⟩
      rw [if_neg hne] at hfound
      exact Directory.read_eq_some_iff.mpr ⟨other, hfound⟩

/-! ### Endings -/

/-- The ending comes behind a text that does not depend on it. -/
theorem exists_text_join (root : Path) (missionId : String) :
    ∃ start, ∀ ending : String,
      (root.join (fileName missionId ending)).text = start ++ '.' :: ending.toList := by
  have hhead (ending : String) :
      (fileName missionId ending).head? = some '/' ↔ missionId.toList.head? = some '/' := by
    unfold fileName
    cases missionId.toList <;> simp
  unfold Path.join
  simp only [hhead]
  split
  · exact ⟨missionId.toList, fun ending => rfl⟩
  · split
    · exact ⟨root.text ++ missionId.toList, fun ending => by simp [fileName]⟩
    · exact ⟨root.text ++ '/' :: missionId.toList, fun ending => by simp [fileName]⟩

/-- What comes last on the way to a file of a mission ends with the ending. -/
theorem exists_last_step (root : Path) (missionId : String) :
    ∃ name, ∀ ending : String, '/' ∉ ending.toList →
      (Directory.steps (root.join (fileName missionId ending))).getLast?
        = some (name ++ '.' :: ending.toList) := by
  obtain ⟨start, hstart⟩ := exists_text_join root missionId
  obtain ⟨init, last, -, happend⟩ := exists_pieces start
  refine ⟨last, fun ending hslash => ?_⟩
  have hpieces : pieces (root.join (fileName missionId ending)).text
      = init ++ [last ++ '.' :: ending.toList] := by
    rw [hstart]
    exact happend _ (by simpa using hslash)
  unfold Directory.steps
  rw [hpieces]
  simp

/-- The files of missions are told by their endings, without a slash in them. -/
def Plain (s : Store) : Prop :=
  match s.naming with
  | none => True
  | some (_, planEnding, waylistEnding) =>
    '/' ∉ planEnding.toList ∧ '/' ∉ waylistEnding.toList ∧ planEnding ≠ waylistEnding

theorem Plain.of_naming (h : s.Plain) (hnaming : s'.naming = s.naming) : s'.Plain := by
  unfold Plain
  rw [hnaming]
  exact h

/-- **With plain endings no plan is where a waypoint list of its mission is.** -/
theorem not_meet_of_plain (h : s.Plain) (missionId : String) :
    ¬ s.Meet (s.planPath missionId) (s.waylistPath missionId) := by
  cases s with
  | memory m =>
    show ¬ (Memory.planPath missionId == Memory.waylistPath missionId) = true
    rw [Memory.planPath_beq_waylistPath]
    exact nofun
  | directory d =>
    obtain ⟨hplan, hwaylist, hne⟩ := h
    rintro ⟨loc, data, hfound, hfound'⟩
    obtain ⟨name, hlast⟩ := exists_last_step d.root missionId
    have hends := (Directory.place_of_resolve hfound).2.2.symm.trans
      (Directory.place_of_resolve hfound').2.2
    have hsame : some (name ++ '.' :: d.planEnding.toList)
        = some (name ++ '.' :: d.waylistEnding.toList) :=
      (hlast _ hplan).symm.trans (hends.trans (hlast _ hwaylist))
    have hendings := (List.cons.inj (List.append_cancel_left (Option.some.inj hsame))).2
    exact hne (String.toList_inj.mp hendings)

end Sortie.Store
