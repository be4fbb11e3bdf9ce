import Mathlib.Data.List.Basic
import SshKeys.FileSystem.Basic
import SshKeys.Proofs.Except

/-!
Where paths lead.

A path is followed through directories, but where it leads does not depend on
them: its steps alone say so. `place` is that location, `Passable` is what has
to be there for the steps to be taken, and `locate_eq_ok_iff` puts the two
together. So a path that can be followed in one state leads to the same place in
every later one in which the directories are still there (`Grows`).
-/

namespace SshKeys

/-! ### Steps of paths -/

namespace Path

theorem steps_append_slash (s t : Text) : steps (s ++ '/' :: t) = steps s ++ steps t := by
  rw [steps, List.splitOn_append_cons_self, List.filter_append]
  rfl

@[simp] theorem steps_nil : steps [] = [] := rfl

theorem steps_of_not_mem {name : Text} (hslash : '/' ∉ name) (hne : name ≠ []) :
    steps name = [name] := by
  rw [steps, List.splitOn_eq_singleton hslash]
  simp [hne]

theorem steps_join {name : Text} (directory : Text) (hslash : '/' ∉ name) (hne : name ≠ []) :
    steps (join directory name) = steps directory ++ [name] := by
  have hname := steps_of_not_mem hslash hne
  unfold join
  split
  · rename_i h
    rcases h with rfl | hlast
    · simp [hname]
    · obtain ⟨front, rfl⟩ := List.getLast?_eq_some_iff.1 hlast
      rw [List.append_assoc, List.singleton_append, steps_append_slash, steps_append_slash, hname,
        steps_nil, List.append_nil]
  · rw [steps_append_slash, hname]

theorem join_append (directory name more : Text) :
    join directory name ++ more = join directory (name ++ more) := by
  unfold join
  split <;> simp

theorem join_ne_nil {name : Text} (directory : Text) (hne : name ≠ []) :
    join directory name ≠ [] := by
  unfold join
  split <;> simp [hne]

theorem isAbsolute_join {name : Text} (directory : Text) (hslash : '/' ∉ name) :
    isAbsolute (join directory name) = isAbsolute directory := by
  cases directory with
  | nil =>
      cases name with
      | nil => rfl
      | cons c name =>
          have hc : c ≠ '/' := fun h => hslash (h ▸ List.mem_cons_self)
          simp [join, isAbsolute, hc]
  | cons c directory =>
      unfold join
      split <;> rfl

theorem getLast?_join {name : Text} (directory : Text) (hne : name ≠ []) :
    (join directory name).getLast? = name.getLast? := by
  unfold join
  split
  · exact List.getLast?_append_of_ne_nil _ hne
  · rw [← List.singleton_append, ← List.append_assoc, List.getLast?_append_of_ne_nil _ hne]

theorem stepsInto_join {name : Text} (directory : Text) (hslash : '/' ∉ name) (hne : name ≠ []) :
    stepsInto (join directory name) = steps directory ++ [name] := by
  have hlast : name.getLast? ≠ some '/' := fun h => hslash (List.mem_of_getLast? h)
  rw [stepsInto, getLast?_join directory hne, if_neg hlast, steps_join directory hslash hne]

theorem mem_join {directory name : Text} {c : Char} (h : c ∈ join directory name) :
    c = '/' ∨ c ∈ directory ∨ c ∈ name := by
  unfold join at h
  split at h
  · exact .inr (List.mem_append.1 h)
  · rcases List.mem_append.1 h with h | h
    · exact .inr (.inl h)
    · exact (List.mem_cons.1 h).imp_right .inr

end Path

namespace FileSystem

/-! ### Walking -/

/-- A directory is there. -/
def DirectoryAt (fs : FileSystem) (l : Location) : Prop :=
  ∃ mode, fs.find? l = some (.directory mode)

instance (fs : FileSystem) (l : Location) : Decidable (fs.DirectoryAt l) :=
  match h : fs.find? l with
  | some (.directory mode) => .isTrue ⟨mode, h⟩
  | some (.file ..) => .isFalse fun ⟨_, hmode⟩ => nomatch h.symm.trans hmode
  | none => .isFalse fun ⟨_, hmode⟩ => nomatch h.symm.trans hmode

/-- Every step is taken from a directory, and no name is too long. -/
def Passable (fs : FileSystem) : Location → List Text → Prop
  | _, [] => True
  | l, name :: rest =>
    fs.DirectoryAt l ∧ name.utf8.length ≤ longestName ∧ fs.Passable (follow l name) rest

variable {fs fs' : FileSystem} {l l' : Location}

theorem walk_eq_ok_iff {names : List Text} :
    fs.walk l names = .ok l' ↔ fs.Passable l names ∧ l' = names.foldl follow l := by
  induction names generalizing l with
  | nil => simp [walk, Passable, eq_comm]
  | cons name rest ih =>
      rw [walk, Passable, DirectoryAt, List.foldl_cons]
      rcases hfind : fs.find? l with _ | ⟨mode, contents⟩ | mode
      · simp
      · simp
      · by_cases hlong : longestName < name.utf8.length
        · simp [hlong, Nat.not_le_of_lt hlong]
        · simp [hlong, Nat.le_of_not_lt hlong, ih]

theorem passable_append {a b : List Text} :
    fs.Passable l (a ++ b) ↔ fs.Passable l a ∧ fs.Passable (a.foldl follow l) b := by
  induction a generalizing l with
  | nil => simp [Passable]
  | cons name a ih => simp [Passable, ih, and_assoc]

/-! ### Places -/

/-- The location that a path leads to, if its steps can be taken. -/
def place (fs : FileSystem) (path : Text) : Location :=
  (Path.steps path).foldl follow (fs.origin path)

/-- A text that may be followed at all. -/
structure IsPath (path : Text) : Prop where
  noNul : '\x00' ∉ path
  length : path.utf8.length ≤ longestPath
  ne_nil : path ≠ []

/-- A name that leads one step down. -/
structure IsName (name : Text) : Prop where
  ne_nil : name ≠ []
  ne_here : name ≠ Path.here
  ne_parent : name ≠ Path.parent
  noSlash : '/' ∉ name
  noNul : '\x00' ∉ name
  length : name.utf8.length ≤ longestName

theorem reach_eq_ok_iff {path : Text} {names : List Text} :
    fs.reach path names = .ok l ↔
      IsPath path ∧ fs.Passable (fs.origin path) names ∧
        l = names.foldl follow (fs.origin path) := by
  unfold reach
  by_cases hnul : '\x00' ∈ path
  · rw [if_pos hnul]
    exact ⟨nofun, fun h => absurd hnul h.1.noNul⟩
  rw [if_neg hnul]
  by_cases hlong : longestPath < path.utf8.length
  · rw [if_pos hlong]
    exact ⟨nofun, fun h => absurd h.1.length (Nat.not_le_of_lt hlong)⟩
  rw [if_neg hlong]
  by_cases hnil : path = []
  · rw [if_pos hnil]
    exact ⟨nofun, fun h => absurd hnil h.1.ne_nil⟩
  rw [if_neg hnil, walk_eq_ok_iff]
  exact ⟨fun h => ⟨⟨hnul, Nat.le_of_not_lt hlong, hnil⟩, h⟩, fun h => h.2⟩

theorem foldl_follow_stepsInto (l : Location) (path : Text) :
    (Path.stepsInto path).foldl follow l = (Path.steps path).foldl follow l := by
  unfold Path.stepsInto
  split
  · rw [List.foldl_append]
    simp [follow]
  · rfl

theorem locate_eq_ok_iff {path : Text} :
    fs.locate path = .ok l ↔
      IsPath path ∧ fs.Passable (fs.origin path) (Path.stepsInto path) ∧ l = fs.place path := by
  rw [locate, reach_eq_ok_iff, foldl_follow_stepsInto, place]

theorem passable_steps_of_locate {path : Text} (h : fs.locate path = .ok l) :
    fs.Passable (fs.origin path) (Path.steps path) := by
  have hpass := (locate_eq_ok_iff.1 h).2.1
  unfold Path.stepsInto at hpass
  split at hpass
  · exact (passable_append.1 hpass).1
  · exact hpass

/-! ### Names in directories -/

theorem follow_of_isName {name : Text} (h : IsName name) (l : Location) :
    follow l name = name :: l := by
  rw [follow, if_neg h.ne_here, if_neg h.ne_parent]

theorem origin_join {name : Text} (h : IsName name) (directory : Text) :
    fs.origin (Path.join directory name) = fs.origin directory := by
  rw [origin, Path.isAbsolute_join directory h.noSlash, origin]

theorem place_join {name : Text} (h : IsName name) (directory : Text) :
    fs.place (Path.join directory name) = name :: fs.place directory := by
  rw [place, Path.steps_join directory h.noSlash h.ne_nil, origin_join h, List.foldl_append, place]
  simp [follow_of_isName h]

/-- What is in a directory is found there, unless the path gets too long. -/
theorem locate_join {directory name : Text} (hname : IsName name)
    (hlocate : fs.locate directory = .ok l) (hdirectory : fs.DirectoryAt l)
    (hlength : (Path.join directory name).utf8.length ≤ longestPath) :
    fs.locate (Path.join directory name) = .ok (name :: l) := by
  have hsteps := passable_steps_of_locate hlocate
  obtain ⟨hpath, -, rfl⟩ := locate_eq_ok_iff.1 hlocate
  have hnul : '\x00' ∉ Path.join directory name := by
    intro hmem
    rcases Path.mem_join hmem with h | h | h
    · exact absurd h (by decide)
    · exact hpath.noNul h
    · exact hname.noNul h
  refine locate_eq_ok_iff.2 ⟨⟨hnul, hlength, Path.join_ne_nil directory hname.ne_nil⟩, ?_,
    (place_join hname directory).symm⟩
  rw [Path.stepsInto_join directory hname.noSlash hname.ne_nil, origin_join hname]
  exact passable_append.2 ⟨hsteps, hdirectory, hname.length, trivial⟩

/-! ### States that grow -/

/-- Directories stay directories, and paths start where they did. -/
structure Grows (fs fs' : FileSystem) : Prop where
  workingDirectory : fs'.workingDirectory = fs.workingDirectory
  directoryAt : ∀ l, fs.DirectoryAt l → fs'.DirectoryAt l

namespace Grows

theorem refl (fs : FileSystem) : Grows fs fs :=
  ⟨rfl, fun _ h => h⟩

theorem trans {fs'' : FileSystem} (h : Grows fs fs') (h' : Grows fs' fs'') : Grows fs fs'' :=
  ⟨h'.workingDirectory.trans h.workingDirectory, fun l hl => h'.directoryAt l (h.directoryAt l hl)⟩

/-- What is put where no directory is does no harm, and neither does another directory. -/
theorem put {node : Node} (h : fs.DirectoryAt l → ∃ mode, node = .directory mode) :
    Grows fs (fs.put l node) := by
  refine ⟨rfl, fun l' hl' => ?_⟩
  rw [DirectoryAt, find?_put]
  split
  · subst l'
    exact (h hl').imp fun mode hmode => congrArg some hmode
  · exact hl'

theorem passable (h : Grows fs fs') {names : List Text} (hpass : fs.Passable l names) :
    fs'.Passable l names := by
  induction names generalizing l with
  | nil => trivial
  | cons name rest ih => exact ⟨h.directoryAt l hpass.1, hpass.2.1, ih hpass.2.2⟩

theorem origin_eq (h : Grows fs fs') (path : Text) : fs'.origin path = fs.origin path := by
  rw [origin, origin, h.workingDirectory]

theorem place_eq (h : Grows fs fs') (path : Text) : fs'.place path = fs.place path := by
  rw [place, place, h.origin_eq]

theorem locate_eq (h : Grows fs fs') {path : Text} (hlocate : fs.locate path = .ok l) :
    fs'.locate path = .ok l := by
  obtain ⟨hpath, hpass, rfl⟩ := locate_eq_ok_iff.1 hlocate
  refine locate_eq_ok_iff.2 ⟨hpath, ?_, (h.place_eq path).symm⟩
  rw [h.origin_eq]
  exact h.passable hpass

end Grows

end FileSystem

end SshKeys
