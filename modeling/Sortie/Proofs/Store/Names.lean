import Mathlib
import Sortie.Proofs.Store.Kept

/-!
# What the files of missions are named after

An id is taken apart at its slashes, and the ending of a file goes behind the last piece only
(`parts_fileName`).  So two ids have their files at the same paths exactly if they agree in the
folders they lead through and in that piece (`planPath_beq_iff`, `waylistPath_beq_iff`), and a plan
is never where a waypoint list is (`planPath_beq_waylistPath`).  Pieces that are empty or a dot lead
nowhere, so different ids may agree; ids without a slash do not (`samePlace_iff_of_no_slash`).
-/

namespace Sortie.Store

/-! ### Pieces -/

theorem pieces_of_no_slash {cs : List Char} (h : '/' ∉ cs) : pieces cs = [cs] := by
  induction cs with
  | nil => rfl
  | cons c cs ih =>
    have hc : c ≠ '/' := fun hc => h (hc ▸ List.mem_cons_self)
    rw [pieces, if_neg hc, ih fun hcs => h (List.mem_cons_of_mem c hcs)]

/-- What follows a text without a slash belongs to its last piece. -/
theorem exists_pieces (cs : List Char) : ∃ init last, pieces cs = init ++ [last] ∧
    ∀ t, '/' ∉ t → pieces (cs ++ t) = init ++ [last ++ t] := by
  induction cs with
  | nil => exact ⟨[], [], rfl, fun t ht => pieces_of_no_slash ht⟩
  | cons c cs ih =>
    obtain ⟨init, last, hpieces, happend⟩ := ih
    by_cases hc : c = '/'
    · refine ⟨[] :: init, last, ?_, fun t ht => ?_⟩
      · rw [pieces, if_pos hc, hpieces]
        rfl
      · rw [List.cons_append, pieces, if_pos hc, happend t ht]
        rfl
    · cases init with
      | nil =>
        refine ⟨[], c :: last, ?_, fun t ht => ?_⟩
        · rw [pieces, if_neg hc, hpieces]
          rfl
        · rw [List.cons_append, pieces, if_neg hc, happend t ht]
          rfl
      | cons first init =>
        refine ⟨(c :: first) :: init, last, ?_, fun t ht => ?_⟩
        · rw [pieces, if_neg hc, hpieces]
          rfl
        · rw [List.cons_append, pieces, if_neg hc, happend t ht]
          rfl

/-! ### Ids as paths -/

/-- The folders that an id leads through. -/
def foldersOf (missionId : String) : List (List Char) :=
  let init := (pieces missionId.toList).dropLast
  if missionId.toList.head? = some '/' then [] :: init.filter (!Path.isVoid ·)
  else match init with
    | [] => []
    | first :: rest => (if first.isEmpty then [] else [first]) ++ rest.filter (!Path.isVoid ·)

/-- The last piece of an id, empty if that ends with a slash. -/
def nameOf (missionId : String) : List Char :=
  (pieces missionId.toList).getLast?.getD []

theorem parts_fileName (missionId : String) {ending : String} (hslash : '/' ∉ ending.toList)
    (hne : ending.toList ≠ []) :
    Path.parts ⟨fileName missionId ending⟩
      = foldersOf missionId ++ [nameOf missionId ++ '.' :: ending.toList] := by
  obtain ⟨init, last, hpieces, happend⟩ := exists_pieces missionId.toList
  have hending : '/' ∉ '.' :: ending.toList := by simpa using hslash
  have hfile : pieces (fileName missionId ending) = init ++ [last ++ '.' :: ending.toList] :=
    happend _ hending
  have hvoid : Path.isVoid (last ++ '.' :: ending.toList) = false := by
    obtain ⟨c, cs, hcs⟩ := List.exists_cons_of_ne_nil hne
    cases last <;> simp [Path.isVoid, hcs]
  have habsolute : Path.isAbsolute ⟨fileName missionId ending⟩
      = decide (missionId.toList.head? = some '/') := by
    unfold Path.isAbsolute fileName
    cases missionId.toList <;> simp
  have hfolders : (pieces missionId.toList).dropLast = init := by
    rw [hpieces, List.dropLast_concat]
  have hname : (pieces missionId.toList).getLast?.getD [] = last := by
    rw [hpieces, List.getLast?_concat]
    rfl
  unfold Path.parts foldersOf nameOf
  rw [habsolute, hfile, hfolders, hname]
  by_cases hhead : missionId.toList.head? = some '/'
  · simp [hhead, hvoid]
  · cases init with
    | nil => simp [hhead]
    | cons first rest => simp [hhead, hvoid]

/-- Whether two missions have their files at the same paths. -/
def SamePlace (i j : String) : Prop :=
  foldersOf i = foldersOf j ∧ nameOf i = nameOf j

theorem beq_fileName_iff (i j : String) {ending : String} (hslash : '/' ∉ ending.toList)
    (hne : ending.toList ≠ []) :
    ((⟨fileName i ending⟩ : Path) == ⟨fileName j ending⟩) = true ↔ SamePlace i j := by
  rw [Path.beq_iff_parts, parts_fileName i hslash hne, parts_fileName j hslash hne]
  constructor
  · intro h
    obtain ⟨hfolders, hnames⟩ := List.append_inj' h rfl
    exact ⟨hfolders, List.append_cancel_right (List.cons.inj hnames).1⟩
  · rintro ⟨hfolders, hnames⟩
    rw [hfolders, hnames]

namespace Memory

theorem planPath_beq_iff (i j : String) : (planPath i == planPath j) = true ↔ SamePlace i j :=
  beq_fileName_iff i j (by decide) (by decide)

theorem waylistPath_beq_iff (i j : String) :
    (waylistPath i == waylistPath j) = true ↔ SamePlace i j :=
  beq_fileName_iff i j (by decide) (by decide)

/-- A plan is never where a waypoint list is. -/
theorem planPath_beq_waylistPath (i j : String) : (planPath i == waylistPath j) = false := by
  refine Bool.eq_false_iff.mpr fun h => ?_
  have hparts := Path.beq_iff_parts.mp h
  unfold planPath waylistPath at hparts
  rw [parts_fileName i (by decide) (by decide), parts_fileName j (by decide) (by decide)] at hparts
  have hnames := (List.cons.inj (List.append_inj' hparts rfl).2).1
  have hlast := congrArg List.getLast? hnames
  rw [List.getLast?_append_of_ne_nil _ (by decide), List.getLast?_append_of_ne_nil _ (by decide)]
    at hlast
  exact absurd hlast (by decide)

end Memory

/-! ### Ids without a slash -/

theorem samePlace_iff_of_no_slash {i j : String} (hi : '/' ∉ i.toList) (hj : '/' ∉ j.toList) :
    SamePlace i j ↔ i = j := by
  have hplace {k : String} (hk : '/' ∉ k.toList) : foldersOf k = [] ∧ nameOf k = k.toList := by
    have hhead : ¬ k.toList.head? = some '/' := fun h => hk (List.mem_of_mem_head? h)
    unfold foldersOf nameOf
    rw [pieces_of_no_slash hk, if_neg hhead]
    exact ⟨rfl, rfl⟩
  constructor
  · rintro ⟨-, hnames⟩
    rw [(hplace hi).2, (hplace hj).2] at hnames
    exact String.toList_inj.mp hnames
  · rintro rfl
    exact ⟨rfl, rfl⟩

end Sortie.Store
