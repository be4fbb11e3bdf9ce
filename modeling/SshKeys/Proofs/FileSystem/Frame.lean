import SshKeys.Proofs.FileSystem.Change

/-!
What stays while a file system is changed.

`Touches` bounds a change by the places that are written to and the places where
directories are made, and is kept by one change after another. `KeepsFiles` is
about contents alone: it allows directories to be made and modes to be set. States
with the same directories have the same paths, which is `Grows` in both
directions.
-/

namespace SshKeys.FileSystem

variable {fs fs' fs'' : FileSystem} {l l' : Location} {path : Text}

/-! ### The same directories -/

/-- A file is no directory, so none has come about. -/
theorem grows_of_put_file (fs : FileSystem) (l : Location) (mode : Mode) (contents : Bytes) :
    Grows (fs.put l (.file mode contents)) fs := by
  refine ⟨rfl, fun l' hl' => ?_⟩
  rw [DirectoryAt, find?_put] at hl'
  split at hl'
  · simp at hl'
  · exact hl'

theorem grows_of_put_directory (h : fs.DirectoryAt l) (mode : Mode) :
    Grows (fs.put l (.directory mode)) fs := by
  refine ⟨rfl, fun l' hl' => ?_⟩
  rw [DirectoryAt, find?_put] at hl'
  split at hl'
  · rename_i heq
    exact heq ▸ h
  · exact hl'

/-- The way of a path does not depend on what has been made on it. -/
theorem onTheWay_of_grows (h : Grows fs fs') (path : Text) :
    fs'.OnTheWay path = fs.OnTheWay path := by
  funext l
  rw [OnTheWay, OnTheWay, h.origin_eq]

/-- A file can be written there: the path can be followed, and no directory is at its end. -/
structure Writable (fs : FileSystem) (path : Text) : Prop where
  locate : fs.locate path = .ok (fs.place path)
  free : ¬fs.DirectoryAt (fs.place path)

theorem Writable.of_grows (h : fs.Writable path) (hgrows : Grows fs fs') (hgrows' : Grows fs' fs) :
    fs'.Writable path := by
  have hplace := hgrows.place_eq path
  refine ⟨?_, fun hdirectory => h.free ?_⟩
  · rw [hplace]
    exact hgrows.locate_eq h.locate
  · rw [hplace] at hdirectory
    exact hgrows'.directoryAt _ hdirectory

theorem writable_iff_of_grows (hgrows : Grows fs fs') (hgrows' : Grows fs' fs) :
    fs'.Writable path ↔ fs.Writable path :=
  ⟨fun h => h.of_grows hgrows' hgrows, fun h => h.of_grows hgrows hgrows'⟩

/-- Where a file is, the path is all that is needed. -/
theorem holds_iff_writable {mode : Mode} {contents : Bytes}
    (hfile : fs.find? (fs.place path) = some (.file mode contents)) :
    fs.holds path = true ↔ fs.Writable path := by
  have hfree : ¬fs.DirectoryAt (fs.place path) := by simp [DirectoryAt, hfile]
  constructor
  · intro h
    obtain ⟨node, hstat⟩ := holds_iff.1 h
    exact ⟨(stat_eq_ok_iff_place.1 hstat).1, hfree⟩
  · intro h
    exact holds_iff.2 ⟨_, stat_of_locate h.locate hfile⟩

/-- What is in a directory can only be found where the directory is. -/
theorem directoryAt_of_locate_join {directory name : Text} (hname : IsName name)
    (h : fs.locate (Path.join directory name) = .ok l) : fs.DirectoryAt (fs.place directory) := by
  have hpass := (locate_eq_ok_iff.1 h).2.1
  rw [Path.stepsInto_join directory hname.noSlash hname.ne_nil, origin_join hname,
    passable_append] at hpass
  exact hpass.2.1

/-! ### Bounds -/

/-- All stays but what is at the locations `changed`, and directories are made where `made` allows
them. -/
structure Touches (changed : List Location) (made : Location → Prop) (fs fs' : FileSystem) :
    Prop where
  grows : Grows fs fs'
  changesOnly : ChangesOnly changed made fs fs'

namespace Touches

variable {changed changed' : List Location} {made made' : Location → Prop}

theorem refl (changed : List Location) (made : Location → Prop) (fs : FileSystem) :
    Touches changed made fs fs :=
  ⟨.refl fs, .refl changed made fs⟩

theorem trans (h : Touches changed made fs fs') (h' : Touches changed made fs' fs'') :
    Touches changed made fs fs'' :=
  ⟨h.grows.trans h'.grows, h.changesOnly.trans h'.changesOnly⟩

theorem mono (h : Touches changed made fs fs') (hchanged : changed ⊆ changed')
    (hmade : ∀ l, made l → made' l) : Touches changed' made' fs fs' :=
  ⟨h.grows, h.changesOnly.mono hchanged hmade⟩

theorem put_file (h : ¬fs.DirectoryAt l) (hl : l ∈ changed) (made : Location → Prop)
    (node : Node) : Touches changed made fs (fs.put l node) :=
  ⟨grows_put_file h node, .put hl made fs node⟩

theorem of_makes (h : Makes made fs fs') (changed : List Location) :
    Touches changed made fs fs' :=
  ⟨h.grows, h.changesOnly.mono (List.nil_subset changed) fun _ => id⟩

end Touches

/-- Files keep their contents, whatever becomes of their modes. -/
def KeepsFiles (fs fs' : FileSystem) : Prop :=
  ∀ l mode contents, fs.find? l = some (.file mode contents) →
    ∃ mode', fs'.find? l = some (.file mode' contents)

namespace KeepsFiles

theorem refl (fs : FileSystem) : KeepsFiles fs fs :=
  fun _ mode _ h => ⟨mode, h⟩

theorem trans (h : KeepsFiles fs fs') (h' : KeepsFiles fs' fs'') : KeepsFiles fs fs'' := by
  intro l mode contents hfile
  obtain ⟨mode', hfile'⟩ := h l mode contents hfile
  exact h' l mode' contents hfile'

theorem of_makes {made : Location → Prop} (h : Makes made fs fs') : KeepsFiles fs fs' := by
  intro l mode contents hfile
  rcases h.changesOnly l (by simp) with hsame | ⟨hnone, -⟩
  · exact ⟨mode, hsame.trans hfile⟩
  · simp [hfile] at hnone

theorem put_withMode {node : Node} (hfind : fs.find? l = some node) (mode : Mode) :
    KeepsFiles fs (fs.put l (node.withMode mode)) := by
  intro l' old contents hfile
  rw [find?_put]
  split
  · rename_i heq
    obtain rfl : node = .file old contents := Option.some.inj (hfind.symm.trans (heq ▸ hfile))
    exact ⟨mode, rfl⟩
  · exact ⟨old, hfile⟩

end KeepsFiles

end SshKeys.FileSystem
