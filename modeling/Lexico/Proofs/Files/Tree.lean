import Lexico.Files.Tree
import Lexico.Source.Fault

/-!
# What a new file changes

To read or to create a file, a path has to lead to a place that is no directory and must not be
refused. The file that is created is at the place its path leads to, and all other places are as
they were. No path leads elsewhere for it, so the path leads to the file (`holds_create_self`), and
no other file reads otherwise (`read_create_of_ne`). What is refused stays refused.
-/

namespace Lexico.Files.Tree

open Fault (bind_eq_ok_iff pure_eq_ok_iff)

variable {t made : Tree} {path other : String} {place : Place} {content bytes : ByteArray}

/-- The path leads to a place where a file may be. -/
def LeadsTo (t : Tree) (path : String) (place : Place) : Prop :=
  ∃ parent name, t.locate path = .ok (.entry parent name false) ∧
    name.utf8ByteSize ≤ nameLimit ∧ place = parent ++ [name]

/-- The path leads to a file with the given content. -/
def Holds (t : Tree) (path : String) (content : ByteArray) : Prop :=
  ∃ place, t.LeadsTo path place ∧ t.node? place = some (.file content)

theorem LeadsTo.ne_nil (h : t.LeadsTo path place) : place ≠ [] := by
  obtain ⟨parent, name, -, -, rfl⟩ := h
  exact List.concat_ne_nil name parent

/-! ### Reading and creating -/

theorem openAt_eq_ok_iff {access : Access} {target : Target} :
    t.openAt access path = .ok target ↔
      t.refusal access path = none ∧ t.locate path = .ok target := by
  unfold openAt
  cases t.refusal access path with
  | none => simp
  | some e => simp

/-- A file is read from the place that its path leads to, unless it is refused. -/
theorem read_eq_ok_iff :
    t.read path = .ok content ↔ t.refusal .reading path = none ∧ t.Holds path content := by
  unfold read
  rw [bind_eq_ok_iff]
  constructor
  · rintro ⟨target, hopen, hread⟩
    obtain ⟨hallowed, hlocate⟩ := openAt_eq_ok_iff.mp hopen
    refine ⟨hallowed, ?_⟩
    cases target with
    | directory => cases hread
    | entry parent name slashed =>
      simp only at hread
      split at hread
      · cases hread
      · next hname =>
        split at hread
        · cases hread
        · cases hread
        · next hnode =>
          split at hread
          · cases hread
          · next hslashed =>
            cases hread
            rw [eq_false_of_ne_true hslashed] at hlocate
            exact ⟨_, ⟨parent, name, hlocate, Nat.le_of_not_lt hname, rfl⟩, hnode⟩
  · rintro ⟨hallowed, _, ⟨parent, name, hlocate, hname, rfl⟩, hnode⟩
    refine ⟨_, openAt_eq_ok_iff.mpr ⟨hallowed, hlocate⟩, ?_⟩
    simp only [Nat.not_lt.mpr hname, if_false, hnode]
    rfl

/-- A file is created at the place that its path leads to, unless it is refused. -/
theorem create_eq_ok_iff :
    t.create path content = .ok made ↔ t.refusal .writing path = none ∧
      ∃ place, t.LeadsTo path place ∧ t.node? place ≠ some .directory ∧
        made = t.put place (.file content) := by
  unfold create
  rw [bind_eq_ok_iff]
  constructor
  · rintro ⟨target, hopen, hcreate⟩
    obtain ⟨hallowed, hlocate⟩ := openAt_eq_ok_iff.mp hopen
    refine ⟨hallowed, ?_⟩
    cases target with
    | directory => cases hcreate
    | entry parent name slashed =>
      simp only at hcreate
      split at hcreate
      · cases hcreate
      · next hslashed =>
        split at hcreate
        · cases hcreate
        · next hname =>
          split at hcreate
          · cases hcreate
          · next hnode =>
            cases hcreate
            rw [eq_false_of_ne_true hslashed] at hlocate
            exact ⟨_, ⟨parent, name, hlocate, Nat.le_of_not_lt hname, rfl⟩, hnode, rfl⟩
  · rintro ⟨hallowed, _, ⟨parent, name, hlocate, hname, rfl⟩, hnode, rfl⟩
    refine ⟨_, openAt_eq_ok_iff.mpr ⟨hallowed, hlocate⟩, ?_⟩
    simp only [Nat.not_lt.mpr hname, if_false]
    split
    · contradiction
    · rfl

/-! ### Following paths in the new tree -/

theorem enter_eq_ok_iff {p q : Place} {name : String} :
    t.enter p name = .ok q ↔
      if name = "." then p = q
      else if name = ".." then p.dropLast = q
      else name.utf8ByteSize ≤ nameLimit ∧ t.node? (p ++ [name]) = some .directory ∧
        p ++ [name] = q := by
  unfold enter
  by_cases hdot : name = "."
  · simp [hdot]
  by_cases hdots : name = ".."
  · simp [hdots]
  by_cases hlong : nameLimit < name.utf8ByteSize
  · simp [hdot, hdots, hlong, Nat.not_le.mpr hlong]
  · cases t.node? (p ++ [name]) with
    | none => simp [hdot, hdots, hlong]
    | some node => cases node <;> simp [hdot, hdots, hlong, Nat.le_of_not_lt hlong]

theorem foldlM_eq_ok_congr {f g : Place → String → Except FileError Place}
    (h : ∀ p name q, f p name = .ok q ↔ g p name = .ok q) (names : List String) {p q : Place} :
    names.foldlM f p = .ok q ↔ names.foldlM g p = .ok q := by
  induction names generalizing p with
  | nil => rfl
  | cons name names ih =>
    rw [List.foldlM_cons, List.foldlM_cons, bind_eq_ok_iff, bind_eq_ok_iff]
    simp only [h, ih]

/-- Where a path leads depends on the directories that can be entered. -/
theorem locate_congr {t' : Tree} (hworking : t'.workingDirectory = t.workingDirectory)
    (henter : ∀ p name q, t'.enter p name = .ok q ↔ t.enter p name = .ok q) {target : Target} :
    t'.locate path = .ok target ↔ t.locate path = .ok target := by
  unfold locate
  rw [hworking]
  by_cases hnul : '\x00' ∈ path.toList
  · simp only [if_pos hnul]
  by_cases hlong : pathLimit ≤ path.utf8ByteSize
  · simp only [if_neg hnul, if_pos hlong]
  by_cases hempty : path = ""
  · simp only [if_neg hnul, if_neg hlong, if_pos hempty]
  simp only [if_neg hnul, if_neg hlong, if_neg hempty]
  cases (names path).getLast? with
  | none => rfl
  | some last => simp only [bind_eq_ok_iff, foldlM_eq_ok_congr henter]

section

variable (hroot : place ≠ []) (hfile : t.node? place ≠ some .directory)
include hroot hfile

/-- No directory comes or goes. -/
theorem node?_put_directory_iff {p : Place} :
    (t.put place (.file content)).node? p = some .directory ↔ t.node? p = some .directory := by
  by_cases hp : p = place
  · rw [hp, node?_put_self hroot]
    exact iff_of_false nofun hfile
  · rw [node?_put_of_ne hp]

theorem leadsTo_put {p : Place} :
    (t.put place (.file content)).LeadsTo path p ↔ t.LeadsTo path p := by
  have hlocate {target : Target} :
      (t.put place (.file content)).locate path = .ok target ↔ t.locate path = .ok target := by
    have hworking : (t.put place (.file content)).workingDirectory = t.workingDirectory := rfl
    apply locate_congr hworking
    intro p name q
    rw [enter_eq_ok_iff, enter_eq_ok_iff, node?_put_directory_iff hroot hfile]
  unfold LeadsTo
  simp only [hlocate]

end

/-! ### The file and the others -/

/-- **The path leads to the new file**, whatever was there. -/
theorem holds_create_self (h : t.create path content = .ok made) : made.Holds path content := by
  obtain ⟨-, place, hleads, hfile, rfl⟩ := create_eq_ok_iff.mp h
  have hroot := hleads.ne_nil
  exact ⟨place, (leadsTo_put hroot hfile).mpr hleads, node?_put_self hroot⟩

/-- Places that the path does not lead to hold what they held. -/
theorem node?_create_of_ne (h : t.create path content = .ok made) (hne : ¬ t.LeadsTo path place) :
    made.node? place = t.node? place := by
  obtain ⟨-, place', hleads, -, rfl⟩ := create_eq_ok_iff.mp h
  apply node?_put_of_ne
  rintro rfl
  exact hne hleads

/-- **No other file** reads otherwise than before. -/
theorem read_create_of_ne (h : t.create path content = .ok made)
    (hne : ∀ place, t.LeadsTo other place → ¬ t.LeadsTo path place) :
    made.read other = .ok bytes ↔ t.read other = .ok bytes := by
  obtain ⟨-, place', hleads, hfile, rfl⟩ := create_eq_ok_iff.mp h
  rw [read_eq_ok_iff, read_eq_ok_iff]
  show t.refusal .reading other = none ∧ _ ↔ _
  refine and_congr_right fun _ => exists_congr fun place => ?_
  rw [leadsTo_put hleads.ne_nil hfile]
  refine and_congr_right fun hother => ?_
  rw [node?_create_of_ne h (hne place hother)]

/-- A new file is a change of the tree. -/
theorem create_ne_self : t.create path content ≠ .ok t := by
  intro h
  obtain ⟨-, place, -, -, hput⟩ := create_eq_ok_iff.mp h
  have hlength := congrArg (fun tree => tree.nodes.length) hput
  simp [put] at hlength

end Lexico.Files.Tree
