import SshKeys.Proofs.FileSystem.Change

/-!
Paths that lead down all the way.

On such a path every place is above the next one, so what stands at its end says
what stands on its way: a directory at the end is found by the path
(`Rooted.isDirectory`), and making the directories on the way makes nothing below
the end (`Makes.find?_below`). Of other paths neither is true. They may pass by a
directory that has yet to be made, and come back to where files are.
-/

namespace SshKeys

/-- No step of the path leads up. -/
def Path.Descends (path : Text) : Prop :=
  Path.parent ∉ Path.steps path

instance (path : Text) : Decidable (Path.Descends path) :=
  inferInstanceAs (Decidable (Path.parent ∉ Path.steps path))

theorem Path.Descends.parent_not_mem_stepsInto {path : Text} (h : Path.Descends path) :
    Path.parent ∉ Path.stepsInto path := by
  unfold Path.stepsInto
  split
  · exact List.not_mem_append h (by decide)
  · exact h

namespace FileSystem

variable {fs fs' : FileSystem} {l l' : Location} {path name : Text} {names : List Text}

/-! ### Nodes in directories -/

/-- Every node but the root is in a directory. -/
def Rooted (fs : FileSystem) : Prop :=
  ∀ entry ∈ fs.nodes, entry.1 = [] ∨ fs.DirectoryAt entry.1.tail

instance (fs : FileSystem) : Decidable fs.Rooted :=
  inferInstanceAs (Decidable (∀ entry ∈ fs.nodes, entry.1 = [] ∨ fs.DirectoryAt entry.1.tail))

theorem Rooted.directoryAt {node : Node} (h : fs.Rooted)
    (hfind : fs.find? (name :: l) = some node) : fs.DirectoryAt l := by
  obtain ⟨front, rest, hnodes, -⟩ := List.lookup_eq_some_iff.1 hfind
  have hmem : (name :: l, node) ∈ fs.nodes := by simp [hnodes]
  exact (h _ hmem).resolve_left (List.cons_ne_nil _ _)

theorem Rooted.directoryAt_of_suffix (h : fs.Rooted) (hsuffix : l <:+ l')
    (hdirectory : fs.DirectoryAt l') : fs.DirectoryAt l := by
  induction l' with
  | nil => rwa [List.suffix_nil.1 hsuffix]
  | cons name above ih =>
      rcases List.suffix_cons_iff.1 hsuffix with rfl | hsuffix
      · exact hdirectory
      · obtain ⟨mode, hfind⟩ := hdirectory
        exact ih hsuffix (h.directoryAt hfind)

/-! ### Steps down -/

theorem suffix_foldl_follow (hnames : Path.parent ∉ names) (l : Location) :
    l <:+ names.foldl follow l := by
  induction names generalizing l with
  | nil => exact List.suffix_refl l
  | cons name rest ih =>
      obtain ⟨hname, hrest⟩ := not_or.1 (mt List.mem_cons.2 hnames)
      have hstep : l <:+ follow l name := by
        rw [follow, if_neg (Ne.symm hname)]
        split
        · exact List.suffix_refl l
        · exact List.suffix_cons name l
      exact hstep.trans (ih hrest (follow l name))

theorem length_le_of_passable (h : fs.Passable l names) :
    ∀ name ∈ names, name.utf8.length ≤ longestName := by
  induction names generalizing l with
  | nil => simp
  | cons name rest ih =>
      obtain ⟨-, hname, hrest⟩ := h
      exact List.forall_mem_cons.2 ⟨hname, ih hrest⟩

/-- A directory at the end is below directories all the way. -/
theorem Rooted.passable (h : fs.Rooted) (hnames : Path.parent ∉ names)
    (hlength : ∀ name ∈ names, name.utf8.length ≤ longestName)
    (hdirectory : fs.DirectoryAt (names.foldl follow l)) : fs.Passable l names := by
  induction names generalizing l with
  | nil => trivial
  | cons name rest ih =>
      obtain ⟨hname, hrest⟩ := List.forall_mem_cons.1 hlength
      exact ⟨h.directoryAt_of_suffix (suffix_foldl_follow hnames l) hdirectory, hname,
        ih (mt (List.mem_cons_of_mem name) hnames) hrest hdirectory⟩

/-! ### Paths down -/

/-- If the path finds a directory in some state, it finds one in all in which one is in its place.
-/
theorem Rooted.isDirectory (h : fs.Rooted) (hdescends : Path.Descends path)
    (hfound : fs'.isDirectory path = true) (hdirectory : fs.DirectoryAt (fs.place path)) :
    fs.isDirectory path = true := by
  obtain ⟨hpath, hpass, -⟩ := locate_eq_ok_iff.1 (isDirectory_iff_place.1 hfound).1
  have hend : fs.DirectoryAt ((Path.stepsInto path).foldl follow (fs.origin path)) := by
    rwa [foldl_follow_stepsInto]
  have hpass' := h.passable hdescends.parent_not_mem_stepsInto (length_le_of_passable hpass) hend
  exact isDirectory_iff_place.2 ⟨locate_eq_ok_iff.2 ⟨hpath, hpass', rfl⟩, hdirectory⟩

theorem not_onTheWay_below (h : Path.Descends path) (name : Text) :
    ¬fs.OnTheWay path (name :: fs.place path) := by
  rintro ⟨front, ⟨rest, hsteps⟩, hplace⟩
  have hrest : Path.parent ∉ rest := fun hmem => h (hsteps ▸ List.mem_append_right front hmem)
  have hsuffix := suffix_foldl_follow hrest (front.foldl follow (fs.origin path))
  rw [← List.foldl_append, hsteps, ← hplace] at hsuffix
  exact absurd hsuffix.length_le (by simp [place])

/-- Making the directories on the way to a place makes nothing in it. -/
theorem Makes.find?_below (h : Makes (fs.OnTheWay path) fs fs') (hdescends : Path.Descends path)
    (name : Text) : fs'.find? (name :: fs.place path) = fs.find? (name :: fs.place path) :=
  (h.changesOnly _ List.not_mem_nil).resolve_right fun hmade =>
    not_onTheWay_below hdescends name hmade.2.1

end FileSystem

end SshKeys
