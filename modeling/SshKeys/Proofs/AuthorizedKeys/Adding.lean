import SshKeys.AuthorizedKeys.File
import SshKeys.Proofs.AuthorizedKeys.Managed
import SshKeys.Proofs.FileSystem.Frame
import SshKeys.Proofs.KeyFiles.Writing

/-!
What adding a key does to a file system.

The steps that append a line are those of one location, so they add up to one
node (`run_extend`), and with the copy before them to two (`Appends`). Securing
the directory comes first and leaves both files alone, so what `add` does is
said by `Secures` and `Appends` together.
-/

namespace SshKeys.AuthorizedKeys

open FileSystem KeyFiles

variable {fs fs' ready secured : FileSystem} {directory line publicKey : Text}

/-! ### The two files -/

theorem isName_file : IsName "authorized_keys".toList := by
  constructor <;> decide

theorem isName_backup : IsName "authorized_keys.bak".toList := by
  constructor <;> decide

theorem backupPath_eq (directory : Text) :
    backupPath directory = Path.join directory "authorized_keys.bak".toList :=
  Path.join_append ..

theorem place_path (fs : FileSystem) (directory : Text) :
    fs.place (path directory) = "authorized_keys".toList :: fs.place directory :=
  place_join isName_file directory

theorem place_backupPath (fs : FileSystem) (directory : Text) :
    fs.place (backupPath directory) = "authorized_keys.bak".toList :: fs.place directory := by
  rw [backupPath_eq, place_join isName_backup]

theorem place_path_ne (fs : FileSystem) (directory : Text) :
    fs.place (path directory) ≠ fs.place directory := by
  rw [place_path]
  exact List.cons_ne_self _ _

theorem place_backupPath_ne (fs : FileSystem) (directory : Text) :
    fs.place (backupPath directory) ≠ fs.place directory := by
  rw [place_backupPath]
  exact List.cons_ne_self _ _

theorem place_backupPath_ne_place_path (fs : FileSystem) (directory : Text) :
    fs.place (backupPath directory) ≠ fs.place (path directory) := by
  rw [place_path, place_backupPath]
  simp

/-- Nothing stands against writing the two files: no directory is in their places, and their paths
are not too long. The backup is written only where there is a file. -/
structure Unblocked (fs : FileSystem) (directory : Text) : Prop where
  file : ¬fs.DirectoryAt (fs.place (path directory))
  backup : ¬fs.DirectoryAt (fs.place (backupPath directory))
  length : (path directory).utf8.length ≤ longestPath
  backupLength : fs.find? (fs.place (path directory)) ≠ none →
    (backupPath directory).utf8.length ≤ longestPath

instance (fs : FileSystem) (directory : Text) : Decidable (Unblocked fs directory) :=
  decidable_of_iff
    (¬fs.DirectoryAt (fs.place (path directory)) ∧
      ¬fs.DirectoryAt (fs.place (backupPath directory)) ∧
      (path directory).utf8.length ≤ longestPath ∧
      (fs.find? (fs.place (path directory)) ≠ none →
        (backupPath directory).utf8.length ≤ longestPath))
    ⟨fun ⟨hfile, hbackup, hlength, hbackupLength⟩ => ⟨hfile, hbackup, hlength, hbackupLength⟩,
      fun h => ⟨h.file, h.backup, h.length, h.backupLength⟩⟩

/-- Both files can be written into the directory. -/
structure Usable (fs : FileSystem) (directory : Text) : Prop extends Unblocked fs directory where
  isDirectory : fs.isDirectory directory = true

instance (fs : FileSystem) (directory : Text) : Decidable (Usable fs directory) :=
  decidable_of_iff (Unblocked fs directory ∧ fs.isDirectory directory = true)
    ⟨fun ⟨h, hdirectory⟩ => ⟨h, hdirectory⟩, fun h => ⟨h.toUnblocked, h.isDirectory⟩⟩

theorem Unblocked.congr (h : Unblocked fs directory)
    (hfile : fs'.find? (fs'.place (path directory)) = fs.find? (fs.place (path directory)))
    (hbackup : fs'.find? (fs'.place (backupPath directory)) =
      fs.find? (fs.place (backupPath directory))) : Unblocked fs' directory := by
  refine ⟨?_, ?_, h.length, ?_⟩
  · rw [DirectoryAt, hfile]
    exact h.file
  · rw [DirectoryAt, hbackup]
    exact h.backup
  · rw [hfile]
    exact h.backupLength

/-- Making a directory whose path leads down puts nothing in the places of the two files. -/
theorem Unblocked.of_readies (h : Unblocked fs directory) (hready : Readies fs directory ready)
    (hdescends : Path.Descends directory) : Unblocked ready directory := by
  have hmakes := hready.makes
  refine h.congr ?_ ?_
  · rw [hmakes.grows.place_eq, place_path, hmakes.find?_below hdescends]
  · rw [hmakes.grows.place_eq, place_backupPath, hmakes.find?_below hdescends]

/-- The files can be written once the directory is there. If its path leads down, that can be said
beforehand. -/
def WillBeUsable (fs : FileSystem) (directory : Text) (ready : FileSystem) : Prop :=
  Unblocked ready directory ∨ (Path.Descends directory ∧ Unblocked fs directory)

theorem WillBeUsable.usable (h : WillBeUsable fs directory ready)
    (hready : Readies fs directory ready) : Usable ready directory := by
  rcases h with h | ⟨hdescends, h⟩
  · exact ⟨h, hready.isDirectory⟩
  · exact ⟨h.of_readies hready hdescends, hready.isDirectory⟩

namespace Usable

variable (h : Usable fs directory)

include h

theorem locate_path : fs.locate (path directory) = .ok (fs.place (path directory)) := by
  obtain ⟨hlocate, hdirectory⟩ := isDirectory_iff_place.1 h.isDirectory
  have hjoin := locate_join isName_file hlocate hdirectory h.length
  rwa [← place_path] at hjoin

theorem locate_backupPath (hheld : fs.find? (fs.place (path directory)) ≠ none) :
    fs.locate (backupPath directory) = .ok (fs.place (backupPath directory)) := by
  obtain ⟨hlocate, hdirectory⟩ := isDirectory_iff_place.1 h.isDirectory
  have hlength := h.backupLength hheld
  rw [backupPath_eq] at hlength
  have hjoin := locate_join isName_backup hlocate hdirectory hlength
  rwa [← place_backupPath, ← backupPath_eq] at hjoin

theorem holds_path : fs.holds (path directory) = (fs.find? (fs.place (path directory))).isSome := by
  rw [holds, stat, h.locate_path, ok_bind]
  cases fs.find? (fs.place (path directory)) <;> rfl

end Usable

/-! ### Adding a line -/

/-- The part of adding a line that follows the copy. -/
def extend (directory line : Text) : Change Unit := do
  Change.act (.openAppending (path directory))
  let contents ← Change.look (·.read (path directory))
  Change.act (.append (path directory) (appended contents line))
  Change.act (.setMode (path directory) fileMode)

theorem run_extend {l : Location} (hlocate : fs.locate (path directory) = .ok l)
    (h : ¬fs.DirectoryAt l) (line : Text) :
    (extend directory line).run.run fs =
      (.ok (), fs.put l (.file fileMode
        (fs.contentsAt l ++ appended (fs.contentsAt l) line))) := by
  obtain ⟨opened, mode, hopen, hfind, hopened⟩ := openAppending_of_locate hlocate h
  have hput (node : Node) : opened.put l node = fs.put l node := by
    rcases hopened with rfl | rfl
    · rfl
    · exact put_put ..
  have hlocate' : opened.locate (path directory) = .ok l := by
    rcases hopened with rfl | rfl
    · exact hlocate
    · exact (grows_put_file h _).locate_eq hlocate
  let longer := fs.contentsAt l ++ appended (fs.contentsAt l) line
  have hlook : (Change.look (·.read (path directory))).run.run opened =
      (.ok (fs.contentsAt l), opened) := by
    rw [Change.run_look, read_of_locate hlocate' hfind]
  have happend : opened.append (path directory) (appended (fs.contentsAt l) line) =
      .ok (fs.put l (.file mode longer)) := by
    rw [append_of_locate hlocate' hfind, hput]
  have hset : (fs.put l (.file mode longer)).setMode (path directory) fileMode =
      .ok (fs.put l (.file fileMode longer)) := by
    rw [setMode_of_locate ((grows_put_file h _).locate_eq hlocate) (find?_put_self ..), put_put]
    rfl
  have hopened' := Change.run_act_of_ok (a := .openAppending (path directory)) hopen
  have happended := Change.run_act_of_ok
    (a := .append (path directory) (appended (fs.contentsAt l) line)) happend
  have hclosed := Change.run_act_of_ok (a := .setMode (path directory) fileMode) hset
  rw [extend, Change.run_bind_of_ok hopened', Change.run_bind_of_ok hlook,
    Change.run_bind_of_ok happended, hclosed]

theorem run_addLine_eq (directory line : Text) (fs : FileSystem) :
    (addLine directory line).run.run fs =
      if fs.holds (path directory) then
        (Change.act (.copy (path directory) (backupPath directory)) >>= fun _ =>
          extend directory line).run.run fs
      else (extend directory line).run.run fs := by
  show (if fs.holds (path directory) then _ else _ : Change Unit).run.run fs = _
  split <;> rfl

/-- The backup is made, if there is a file. -/
structure Copies (directory : Text) (fs copied : FileSystem) : Prop where
  grows : Grows fs copied
  changesOnly : ChangesOnly [fs.place (backupPath directory)] (fun _ => False) fs copied
  backup : ∀ node, fs.find? (fs.place (path directory)) = some node →
    copied.find? (fs.place (backupPath directory)) = some node
  same : fs.find? (fs.place (path directory)) = none → copied = fs

theorem Copies.refl (hnone : fs.find? (fs.place (path directory)) = none) :
    Copies directory fs fs := {
  grows := .refl fs
  changesOnly := .refl _ _ fs
  backup := fun node hnode => by nomatch hnone.symm.trans hnode
  same := fun _ => rfl }

theorem Copies.put {node : Node} (hfind : fs.find? (fs.place (path directory)) = some node)
    (hfree : ¬fs.DirectoryAt (fs.place (backupPath directory))) :
    Copies directory fs (fs.put (fs.place (backupPath directory)) node) := {
  grows := grows_put_file hfree node
  changesOnly := .put List.mem_cons_self _ fs node
  backup := fun node hnode => by rw [find?_put_self, ← hfind, hnode]
  same := fun hnone => by nomatch hfind.symm.trans hnone }

theorem run_addLine_copies (h : Usable fs directory) (line : Text) :
    ∃ copied, (addLine directory line).run.run fs = (extend directory line).run.run copied ∧
      Copies directory fs copied := by
  rw [run_addLine_eq, h.holds_path]
  rcases hfind : fs.find? (fs.place (path directory)) with _ | ⟨mode, contents⟩ | mode
  · exact ⟨fs, if_neg (by simp), .refl hfind⟩
  · have hbackup := h.locate_backupPath (by simp [hfind])
    have hcopy := Change.run_act_of_ok (a := .copy (path directory) (backupPath directory))
      (copy_of_locate (stat_of_locate h.locate_path hfind) hbackup h.backup)
    rw [if_pos Option.isSome_some, Change.run_bind_of_ok hcopy]
    exact ⟨_, rfl, .put hfind h.backup⟩
  · exact absurd ⟨mode, hfind⟩ h.file

/-- A line at the end of the file, and a copy of the file as it was. -/
structure Appends (directory line : Text) (fs fs' : FileSystem) : Prop where
  grows : Grows fs fs'
  changesOnly : ChangesOnly [fs.place (path directory), fs.place (backupPath directory)]
    (fun _ => False) fs fs'
  file : fs'.stat (path directory) = .ok (.file fileMode
    (fs.contentsAt (fs.place (path directory)) ++
      appended (fs.contentsAt (fs.place (path directory))) line))
  copied : ∀ node, fs.find? (fs.place (path directory)) = some node →
    fs'.stat (backupPath directory) = .ok node
  notCopied : fs.find? (fs.place (path directory)) = none →
    fs'.find? (fs.place (backupPath directory)) = fs.find? (fs.place (backupPath directory))

/-- The copy does not touch the file itself, so the line is appended as if there were none. -/
theorem Copies.run_extend {copied : FileSystem} (hcopies : Copies directory fs copied)
    (hlocate : fs.locate (path directory) = .ok (fs.place (path directory)))
    (hfile : ¬fs.DirectoryAt (fs.place (path directory)))
    (hbackup : fs.find? (fs.place (path directory)) ≠ none →
      fs.locate (backupPath directory) = .ok (fs.place (backupPath directory)))
    (line : Text) :
    ∃ fs', (extend directory line).run.run copied = (.ok (), fs') ∧
      Appends directory line fs fs' := by
  let l := fs.place (path directory)
  have hne : fs.place (backupPath directory) ≠ l := place_backupPath_ne_place_path fs directory
  have hkept : copied.find? l = fs.find? l :=
    (hcopies.changesOnly l (by simpa using hne.symm)).resolve_right fun hmade => hmade.2.1
  have hcontents : copied.contentsAt l = fs.contentsAt l := by
    rw [contentsAt, contentsAt, hkept]
  have hfile' : ¬copied.DirectoryAt l := by
    rw [DirectoryAt, hkept]
    exact hfile
  have hgrows : Grows copied (copied.put l (.file fileMode
      (fs.contentsAt l ++ appended (fs.contentsAt l) line))) := grows_put_file hfile' _
  rw [AuthorizedKeys.run_extend (hcopies.grows.locate_eq hlocate) hfile', hcontents]
  refine ⟨_, rfl, hcopies.grows.trans hgrows, ?_, ?_, ?_, ?_⟩
  · exact (hcopies.changesOnly.mono (List.subset_cons_self _ _) fun _ => id).trans
      (.put List.mem_cons_self _ copied _)
  · exact stat_of_locate (hgrows.locate_eq (hcopies.grows.locate_eq hlocate)) (find?_put_self ..)
  · intro node hnode
    have hlocated := hcopies.grows.locate_eq (hbackup (by simp [hnode]))
    refine stat_of_locate (hgrows.locate_eq hlocated) ?_
    rw [find?_put, if_neg hne, hcopies.backup node hnode]
  · intro hnone
    rw [find?_put, if_neg hne, hcopies.same hnone]

theorem run_addLine (h : Usable fs directory) (line : Text) :
    ∃ fs', (addLine directory line).run.run fs = (.ok (), fs') ∧
      Appends directory line fs fs' := by
  obtain ⟨copied, hrun, hcopies⟩ := run_addLine_copies h line
  rw [hrun]
  exact hcopies.run_extend h.locate_path h.file h.locate_backupPath line

/-- Where nothing can be appended nothing is changed, not even the backup. -/
theorem run_addLine_cases (directory line : Text) (fs : FileSystem) :
    (∃ e, (addLine directory line).run.run fs = (.error e, fs)) ∨
      ∃ fs', (addLine directory line).run.run fs = (.ok (), fs') ∧
        fs.locate (path directory) = .ok (fs.place (path directory)) ∧
        ¬fs.DirectoryAt (fs.place (path directory)) ∧ Appends directory line fs fs' := by
  rw [run_addLine_eq]
  by_cases hholds : fs.holds (path directory) = true
  · rw [if_pos hholds, Change.run_bind, Change.run_act]
    rcases hcopy : fs.apply (.copy (path directory) (backupPath directory)) with fault | copied
    · exact .inl ⟨_, rfl⟩
    obtain ⟨mode, contents, l, hstat, hbackup, hfree, rfl⟩ := copy_eq_ok_iff.1 hcopy
    obtain ⟨hlocate, hfind⟩ := stat_eq_ok_iff_place.1 hstat
    obtain rfl := (locate_eq_ok_iff.1 hbackup).2.2
    have hcopies := Copies.put hfind hfree
    have hfile : ¬fs.DirectoryAt (fs.place (path directory)) := by simp [DirectoryAt, hfind]
    obtain ⟨fs', hrun, happends⟩ := hcopies.run_extend hlocate hfile (fun _ => hbackup) line
    exact .inr ⟨fs', hrun, hlocate, hfile, happends⟩
  · rw [if_neg hholds]
    rcases hopen : fs.openAppending (path directory) with fault | opened
    · left
      rw [extend, Change.run_bind, Change.run_act, FileSystem.apply, hopen]
      exact ⟨_, rfl⟩
    obtain ⟨l, hlocate, hfree⟩ := locate_of_openAppending hopen
    obtain rfl := (locate_eq_ok_iff.1 hlocate).2.2
    have hnone : fs.find? (fs.place (path directory)) = none := by
      by_contra hheld
      obtain ⟨node, hfind⟩ := Option.ne_none_iff_exists'.1 hheld
      exact hholds (holds_iff.2 ⟨node, stat_of_locate hlocate hfind⟩)
    obtain ⟨fs', hrun, happends⟩ := (Copies.refl hnone).run_extend hlocate hfree
      (fun hheld => absurd hnone hheld) line
    exact .inr ⟨fs', hrun, hlocate, hfree, happends⟩

/-- The directory stays as it was. -/
theorem Appends.stat_directory {node : Node} (h : Appends directory line fs fs')
    (hstat : fs.stat directory = .ok node) : fs'.stat directory = .ok node := by
  obtain ⟨hlocate, hfind⟩ := stat_eq_ok_iff_place.1 hstat
  have hother : fs.place directory ∉
      [fs.place (path directory), fs.place (backupPath directory)] := by
    simp [(place_path_ne fs directory).symm, (place_backupPath_ne fs directory).symm]
  have hsame := (h.changesOnly _ hother).resolve_right fun hmade => hmade.2.1
  exact stat_of_locate (h.grows.locate_eq hlocate) (hsame.trans hfind)

theorem Appends.isDirectory (h : Appends directory line fs fs')
    (hdirectory : fs.isDirectory directory = true) : fs'.isDirectory directory = true := by
  obtain ⟨l, hlocate, hfind⟩ := isDirectory_iff.1 hdirectory
  exact isDirectory_iff.2 ⟨l, h.grows.locate_eq hlocate, h.grows.directoryAt l hfind⟩

/-! ### Adding a key -/

theorem Usable.of_secures (h : Usable ready directory)
    (hsecures : Secures directory ready secured) : Usable secured directory := by
  refine ⟨h.toUnblocked.congr ?_ ?_, hsecures.isDirectory⟩
  · rw [hsecures.grows.place_eq, hsecures.find?_eq (place_path_ne ready directory)]
  · rw [hsecures.grows.place_eq, hsecures.find?_eq (place_backupPath_ne ready directory)]

/-- What is listed depends on the file only. -/
theorem list_eq_of_stat_eq (h : fs'.stat (path directory) = fs.stat (path directory)) :
    list fs' directory = list fs directory := by
  have hholds : fs'.holds (path directory) = fs.holds (path directory) := by
    rw [holds, holds, h]
  have hread : fs'.readText (path directory) = fs.readText (path directory) := by
    rw [readText, readText, FileSystem.read, FileSystem.read, h]
  rw [list, list, hholds, hread]

theorem list_of_secures (h : ready.isDirectory directory = true)
    (hsecures : Secures directory ready secured) :
    list secured directory = list ready directory :=
  list_eq_of_stat_eq (hsecures.stat_eq h (place_path_ne ready directory))

theorem lists_of_secures (h : Usable ready directory)
    (hsecures : Secures directory ready secured) (fingerprint : Text) :
    lists secured directory fingerprint = lists ready directory fingerprint := by
  rw [lists, lists, list_of_secures h.isDirectory hsecures]

/-- The part of adding a key that follows the securing of the directory. -/
def addEntry (directory : Text) (entry : ManagedEntry) : Change Outcome := do
  if lists (← get) directory entry.fingerprint then
    return .alreadyPresent
  addLine directory entry.line
  return .added

theorem run_addEntry_eq (directory : Text) (entry : ManagedEntry) (fs : FileSystem) :
    (addEntry directory entry).run.run fs =
      if lists fs directory entry.fingerprint then (.ok .alreadyPresent, fs)
      else (addLine directory entry.line >>= fun _ => pure .added).run.run fs := by
  show (if lists fs directory entry.fingerprint then pure .alreadyPresent
    else addLine directory entry.line >>= fun _ => pure .added : Change Outcome).run.run fs = _
  split <;> rfl

theorem run_add_eq (directory publicKey : Text) (fs : FileSystem) :
    (add directory publicKey).run.run fs =
      match ManagedEntry.ofText publicKey with
      | .error e => (.error e, fs)
      | .ok entry =>
        (secureDirectory directory >>= fun _ => addEntry directory entry).run.run fs := by
  unfold add
  cases ManagedEntry.ofText publicKey <;> rfl

variable {entry : ManagedEntry}

/-- The directory is secured, and a line added if the file does not list the key. -/
theorem run_add (hentry : ManagedEntry.ofText publicKey = .ok entry)
    (hready : Readies fs directory ready) (h : Usable ready directory) :
    ∃ secured, Secures directory ready secured ∧
      ((lists ready directory entry.fingerprint = true ∧
          (add directory publicKey).run.run fs = (.ok .alreadyPresent, secured)) ∨
        (lists ready directory entry.fingerprint = false ∧
          ∃ fs', (add directory publicKey).run.run fs = (.ok .added, fs') ∧
            Appends directory entry.line secured fs')) := by
  obtain ⟨secured, hrun, hsecures⟩ := run_secureDirectory hready
  have hadd : (add directory publicKey).run.run fs =
      (addEntry directory entry).run.run secured := by
    rw [run_add_eq, hentry]
    exact Change.run_bind_of_ok hrun
  refine ⟨secured, hsecures, ?_⟩
  rw [hadd, run_addEntry_eq, lists_of_secures h hsecures]
  cases hlists : lists ready directory entry.fingerprint with
  | true => exact .inl ⟨rfl, rfl⟩
  | false =>
      obtain ⟨fs', hline, happends⟩ := run_addLine (h.of_secures hsecures) entry.line
      refine .inr ⟨rfl, fs', ?_, happends⟩
      rw [if_neg Bool.false_ne_true, Change.run_bind_of_ok hline]
      rfl

/-! ### What is touched, however it ends -/

/-- The directory, its authorized_keys file and the copy of that. -/
def authorizedAt (fs : FileSystem) (directory : Text) : List Location :=
  [fs.place directory, fs.place (path directory), fs.place (backupPath directory)]

theorem authorizedAt_of_grows (h : Grows fs fs') (directory : Text) :
    authorizedAt fs' directory = authorizedAt fs directory := by
  simp only [authorizedAt, h.place_eq]

theorem touches_addLine (directory line : Text) (fs : FileSystem) :
    Touches [fs.place (path directory), fs.place (backupPath directory)] (fun _ => False) fs
      ((addLine directory line).run.run fs).2 := by
  rcases run_addLine_cases directory line fs with ⟨e, hrun⟩ | ⟨fs', hrun, -, -, happends⟩
  · rw [hrun]
    exact .refl _ _ fs
  · rw [hrun]
    exact ⟨happends.grows, happends.changesOnly⟩

theorem touches_addEntry (directory : Text) (entry : ManagedEntry) (fs : FileSystem) :
    Touches [fs.place (path directory), fs.place (backupPath directory)] (fun _ => False) fs
      ((addEntry directory entry).run.run fs).2 := by
  have hline := touches_addLine directory entry.line fs
  rw [run_addEntry_eq]
  split
  · exact .refl _ _ fs
  · rw [Change.run_bind]
    rcases hrun : (addLine directory entry.line).run.run fs with ⟨e | ⟨⟩, fs'⟩
    all_goals
      rw [hrun] at hline
      exact hline

theorem touches_add (directory publicKey : Text) (fs : FileSystem) :
    Touches (authorizedAt fs directory) (fs.OnTheWay directory) fs
      ((add directory publicKey).run.run fs).2 := by
  rw [run_add_eq]
  cases ManagedEntry.ofText publicKey with
  | error e => exact .refl _ _ fs
  | ok entry =>
      have hmost := securesAtMost_secureDirectory directory fs
      have hsecured : Touches (authorizedAt fs directory) (fs.OnTheWay directory) fs
          ((secureDirectory directory).run.run fs).2 :=
        ⟨hmost.grows, hmost.changesOnly.mono (by simp [authorizedAt]) fun _ => id⟩
      rcases hrun : (secureDirectory directory).run.run fs with ⟨e | ⟨⟩, secured⟩
      · rw [hrun] at hsecured
        simp only [Change.run_bind_of_error hrun]
        exact hsecured
      · rw [hrun] at hsecured
        have hentry := touches_addEntry directory entry secured
        rw [hsecured.grows.place_eq, hsecured.grows.place_eq] at hentry
        simp only [Change.run_bind_of_ok hrun]
        exact hsecured.trans (hentry.mono (List.subset_cons_self _ _) fun _ => False.elim)

/-! ### What is different afterwards -/

theorem appended_eq (contents : Bytes) (line : Text) :
    appended contents line =
      (if contents = [] ∨ contents.getLast? = some 10 then [] else [10]) ++ line.utf8 ++ [10] := by
  have hnewline : Text.utf8 ['\n'] = [10] := by decide
  rw [appended, Text.utf8_append, hnewline, ← List.append_assoc]
  rcases hlast : contents.getLast? with _ | last
  · rw [if_pos (.inl (List.getLast?_eq_none_iff.1 hlast))]
  · have hne : contents ≠ [] := by
      rintro rfl
      nomatch hlast
    simp [hne]

/-- What adding an entry to the file of a directory changes, by its outcome. -/
structure Adds (directory : Text) (entry : ManagedEntry) (outcome : Outcome)
    (fs fs' : FileSystem) : Prop where
  closed : ∃ mode, fs'.stat directory = .ok (.directory mode) ∧
    mode &&& accessBits = directoryMode
  others : ChangesOnly [fs.place directory, fs.place (path directory),
    fs.place (backupPath directory)] (fs.OnTheWay directory) fs fs'
  alreadyPresent : outcome = .alreadyPresent →
    fs'.find? (fs.place (path directory)) = fs.find? (fs.place (path directory)) ∧
    fs'.find? (fs.place (backupPath directory)) = fs.find? (fs.place (backupPath directory))
  added : outcome = .added → ∀ old, old = fs.contentsAt (fs.place (path directory)) →
    fs'.stat (path directory) = .ok (.file fileMode
      (old ++ (if old = [] ∨ old.getLast? = some 10 then [] else [10]) ++ entry.line.utf8 ++ [10]))
  copied : outcome = .added → ∀ mode old,
    fs.find? (fs.place (path directory)) = some (.file mode old) →
    ∃ mode', fs'.stat (backupPath directory) = .ok (.file mode' old) ∧
      mode' &&& accessBits = mode &&& accessBits
  notCopied : outcome = .added → fs.find? (fs.place (path directory)) = none →
    fs'.find? (fs.place (backupPath directory)) = fs.find? (fs.place (backupPath directory))

/-- The state in which the directory is secured, beside the one before. -/
structure Prepares (directory : Text) (fs secured : FileSystem) : Prop where
  grows : Grows fs secured
  closed : ∃ mode, secured.stat directory = .ok (.directory mode) ∧
    mode &&& accessBits = directoryMode
  changesOnly : ChangesOnly [fs.place directory] (fs.OnTheWay directory) fs secured
  file : secured.find? (fs.place (path directory)) = fs.find? (fs.place (path directory))
  backup : secured.find? (fs.place (backupPath directory)) =
    fs.find? (fs.place (backupPath directory))

theorem prepares_of_secures (hready : Readies fs directory ready) (h : Usable ready directory)
    (hsecures : Secures directory ready secured) : Prepares directory fs secured := by
  have hmakes := hready.makes
  have hplace (p : Text) : ready.place p = fs.place p := hmakes.grows.place_eq p
  have hsecured := hsecures.changesOnly (fs.OnTheWay directory)
  rw [hplace] at hsecured
  -- what is made are directories, so nothing is made in the place of a file
  have hkept {p : Text} (hne : ready.place p ≠ ready.place directory)
      (hfree : ¬ready.DirectoryAt (ready.place p)) :
      secured.find? (fs.place p) = fs.find? (fs.place p) := by
    rw [← hplace, hsecures.find?_eq hne]
    exact hmakes.changesOnly.find?_eq List.not_mem_nil hfree
  exact {
    grows := hmakes.grows.trans hsecures.grows
    closed := hsecures.stat
    changesOnly := (hmakes.changesOnly.mono (List.nil_subset _) fun _ => id).trans hsecured
    file := hkept (place_path_ne ready directory) h.file
    backup := hkept (place_backupPath_ne ready directory) h.backup }

theorem Prepares.others (h : Prepares directory fs secured) :
    ChangesOnly [fs.place directory, fs.place (path directory), fs.place (backupPath directory)]
      (fs.OnTheWay directory) fs secured :=
  h.changesOnly.mono (List.cons_subset_cons _ (List.nil_subset _)) fun _ => id

theorem Prepares.contentsAt_eq (h : Prepares directory fs secured) :
    secured.contentsAt (secured.place (path directory)) =
      fs.contentsAt (fs.place (path directory)) := by
  rw [h.grows.place_eq, contentsAt, contentsAt, h.file]

theorem Prepares.adds_alreadyPresent (h : Prepares directory fs secured) (entry : ManagedEntry) :
    Adds directory entry .alreadyPresent fs secured := {
  closed := h.closed
  others := h.others
  alreadyPresent := fun _ => ⟨h.file, h.backup⟩
  added := nofun
  copied := nofun
  notCopied := nofun }

theorem Prepares.adds_added (h : Prepares directory fs secured)
    (happends : Appends directory entry.line secured fs') :
    Adds directory entry .added fs fs' := by
  have hplace (p : Text) : secured.place p = fs.place p := h.grows.place_eq p
  have hchanges := happends.changesOnly
  have hfile := happends.file
  have hcopied := happends.copied
  have hnotCopied := happends.notCopied
  rw [hplace, hplace] at hchanges
  rw [h.contentsAt_eq, appended_eq, ← List.append_assoc, ← List.append_assoc] at hfile
  rw [hplace, h.file] at hcopied hnotCopied
  rw [hplace, h.backup] at hnotCopied
  constructor
  case closed =>
    obtain ⟨mode, hstat, hmode⟩ := h.closed
    exact ⟨mode, happends.stat_directory hstat, hmode⟩
  case others =>
    exact h.others.trans (hchanges.mono (List.subset_cons_self _ _) fun _ => False.elim)
  case alreadyPresent => simp
  case added =>
    rintro - old rfl
    exact hfile
  case copied => exact fun _ mode old hold => ⟨mode, hcopied _ hold, rfl⟩
  case notCopied => exact fun _ => hnotCopied

/-- A text that makes no entry changes nothing. One that does is added wherever the files can be
written, unless its key is listed, and nothing else is touched. -/
theorem add_changes (fs : FileSystem) (directory publicKey : Text) :
    (∀ e, ManagedEntry.ofText publicKey = .error e →
      (add directory publicKey).run.run fs = (.error e, fs)) ∧
    ∀ entry ready, ManagedEntry.ofText publicKey = .ok entry → Readies fs directory ready →
      WillBeUsable fs directory ready →
      ∃ outcome fs', (add directory publicKey).run.run fs = (.ok outcome, fs') ∧
        Adds directory entry outcome fs fs' ∧
        (outcome = .alreadyPresent ↔ lists ready directory entry.fingerprint = true) := by
  constructor
  · intro e he
    rw [run_add_eq, he]
  · intro entry ready hentry hready h
    have husable := h.usable hready
    obtain ⟨secured, hsecures, ⟨hlists, hrun⟩ | ⟨hlists, fs', hrun, happends⟩⟩ :=
      run_add hentry hready husable
    · have hprepares := prepares_of_secures hready husable hsecures
      exact ⟨_, secured, hrun, hprepares.adds_alreadyPresent entry, by simp [hlists]⟩
    · have hprepares := prepares_of_secures hready husable hsecures
      exact ⟨_, fs', hrun, hprepares.adds_added happends, by simp [hlists]⟩

/-- A file whose last line is unterminated, and an old backup. -/
theorem add_changes_unterminated :
    let directory := "d".toList
    let fs := ((FileSystem.empty.put ["d".toList] (.directory 0o755)).put
      ["authorized_keys".toList, "d".toList] (.file 0o644 [0x23, 0xff])).put
      ["authorized_keys.bak".toList, "d".toList] (.file 0o400 [])
    (add directory "ssh-rsa".toList).run.run fs = (.error (.invalidPublicKey .incomplete), fs) ∧
      ∃ entry outcome fs', ManagedEntry.ofText sampleKey = .ok entry ∧
        (add directory sampleKey).run.run fs = (.ok outcome, fs') ∧
        Adds directory entry outcome fs fs' := by
  intro directory fs
  have hdirectory : fs.isDirectory directory = true := by decide +kernel
  have hdescends : Path.Descends directory := by decide +kernel
  have hunblocked : Unblocked fs directory := by decide +kernel
  obtain ⟨entry, hentry⟩ := exists_ofText_sampleKey
  have hrefused : ManagedEntry.ofText "ssh-rsa".toList =
      .error (.invalidPublicKey .incomplete) := by decide +kernel
  have herror := (add_changes fs directory "ssh-rsa".toList).1 _ hrefused
  obtain ⟨outcome, fs', hrun, hadds, -⟩ :=
    (add_changes fs directory sampleKey).2 entry fs hentry (.found hdirectory)
      (.inr ⟨hdescends, hunblocked⟩)
  exact ⟨herror, entry, outcome, fs', hentry, hrun, hadds⟩

/-- A directory may be found where the path of the file is too long. If the path that a command is
given leads up, making the directory may put a directory in the place of the file. -/
theorem exists_add_eq_error :
    (∃ entry, ManagedEntry.ofText sampleKey = .ok entry) ∧
    (let directory := 'd' :: List.replicate 4094 '/';
      let fs := FileSystem.empty.put ["d".toList] (.directory 0o755);
      Readies fs directory fs ∧ fs.isDirectory (path directory) = false ∧
        fs.isDirectory (backupPath directory) = false ∧
        ((add directory sampleKey).run.run fs).1 = .error (.io .tooLong)) ∧
    (let directory := "authorized_keys/..".toList;
      (∃ ready, Readies .empty directory ready) ∧
        FileSystem.empty.isDirectory (path directory) = false ∧
        FileSystem.empty.isDirectory (backupPath directory) = false ∧
        ((add directory sampleKey).run.run .empty).1 = .error (.io .notRegular)) := by
  let made := ((Change.settleAll "authorized_keys/..".toList).run.run .empty).2
  have hmade : ((Change.settleAll "authorized_keys/..".toList).run.run .empty).1 = .ok () := by
    decide +kernel
  have hready : Readies .empty "authorized_keys/..".toList made :=
    .made (by decide +kernel) (Prod.ext hmade rfl) (by decide +kernel)
  have hfound : (FileSystem.empty.put ["d".toList] (.directory 0o755)).isDirectory
      ('d' :: List.replicate 4094 '/') = true := by decide +kernel
  refine ⟨exists_ofText_sampleKey, ⟨.found hfound, ?_, ?_, ?_⟩, ⟨made, hready⟩, ?_, ?_, ?_⟩
  all_goals decide +kernel

end SshKeys.AuthorizedKeys
