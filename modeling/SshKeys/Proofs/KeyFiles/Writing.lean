import SshKeys.KeyFiles
import SshKeys.Proofs.FileSystem.Descending

/-!
What securing a directory and writing key files do to a file system.

A directory that is there, or can be made, is secured by at most one change of
its mode. A file is written whole: three steps add up to one node, whatever file
was there before.
-/

namespace SshKeys.KeyFiles

open FileSystem

variable {fs fs' ready secured : FileSystem} {directory path : Text} {l : Location}

/-! ### Directories -/

/-- The state in which a directory is there to be used: the same state if it is there already, the
one after it is made if nothing has its name. -/
inductive Readies (fs : FileSystem) (directory : Text) : FileSystem → Prop
  | found (hdirectory : fs.isDirectory directory = true) : Readies fs directory fs
  | made {ready : FileSystem} (habsent : fs.holds directory = false)
      (hmade : (Change.settleAll directory).run.run fs = (.ok (), ready))
      (hdirectory : ready.isDirectory directory = true) : Readies fs directory ready

theorem Readies.isDirectory (h : Readies fs directory ready) :
    ready.isDirectory directory = true := by
  cases h with
  | found hdirectory => exact hdirectory
  | made _ _ hdirectory => exact hdirectory

theorem Readies.makes (h : Readies fs directory ready) :
    Makes (fs.OnTheWay directory) fs ready := by
  cases h with
  | found => exact .refl _ fs
  | made _ hmade =>
      have hmakes := Change.makes_settleAll directory fs
      rwa [hmade] at hmakes

/-- Where a directory has to be made nothing is in its place yet, so there is nothing below it. -/
theorem Readies.eq_or_empty (h : Readies fs directory ready) (hrooted : fs.Rooted)
    (hdescends : Path.Descends directory) :
    ready = fs ∨ ∀ name, fs.find? (name :: fs.place directory) = none := by
  cases h with
  | found => exact .inl rfl
  | made habsent _ hdirectory =>
      refine .inr fun name => ?_
      by_contra hheld
      obtain ⟨node, hfind⟩ := Option.ne_none_iff_exists'.1 hheld
      have hthere := hrooted.isDirectory hdescends hdirectory (hrooted.directoryAt hfind)
      simp [holds_of_isDirectory hthere] at habsent

/-- The directory is for its owner only, and nothing else is different. -/
structure Secures (directory : Text) (ready secured : FileSystem) : Prop where
  stat : ∃ mode, secured.stat directory = .ok (.directory mode) ∧
    mode &&& accessBits = directoryMode
  eq_or_eq_put : secured = ready ∨
    secured = ready.put (ready.place directory) (.directory directoryMode)

/-- Closes a directory that is there to all but its owner. -/
def close (directory : Text) : Change Unit := do
  let node ← Change.look (·.stat directory)
  if node.mode &&& accessBits ≠ directoryMode then
    Change.act (.setMode directory directoryMode)

theorem run_secureDirectory_eq (directory : Text) (fs : FileSystem) :
    (secureDirectory directory).run.run fs =
      if fs.holds directory then (close directory).run.run fs
      else (Change.settleAll directory >>= fun _ => close directory).run.run fs := by
  show (if fs.holds directory then _ else _ : Change Unit).run.run fs = _
  split <;> rfl

/-- What has the name of the directory is for its owner only. -/
def IsClosed (fs : FileSystem) (directory : Text) : Prop :=
  ∃ node, fs.stat directory = .ok node ∧ node.mode &&& accessBits = directoryMode

theorem run_close_of_stat {node : Node} (hstat : fs.stat directory = .ok node) :
    (close directory).run.run fs = (.ok (),
      if node.mode &&& accessBits = directoryMode then fs
      else fs.put (fs.place directory) (node.withMode directoryMode)) := by
  obtain ⟨hlocate, hfind⟩ := stat_eq_ok_iff_place.1 hstat
  have hlook : (Change.look (·.stat directory)).run.run fs = (.ok node, fs) := by
    rw [Change.run_look, hstat]
  have hset := Change.run_act_of_ok (a := .setMode directory directoryMode)
    (setMode_of_locate hlocate hfind directoryMode)
  rw [close, Change.run_bind_of_ok hlook]
  show (if node.mode &&& accessBits ≠ directoryMode then
    Change.act (.setMode directory directoryMode) else pure ()).run.run fs = _
  by_cases hmode : node.mode &&& accessBits = directoryMode
  · rw [if_neg (not_not_intro hmode), if_pos hmode]
    rfl
  · rw [if_pos hmode, if_neg hmode, hset]

theorem run_close (h : ready.isDirectory directory = true) :
    ∃ secured, (close directory).run.run ready = (.ok (), secured) ∧
      Secures directory ready secured := by
  obtain ⟨hlocate, mode, hfind⟩ := isDirectory_iff_place.1 h
  have hstat := stat_of_locate hlocate hfind
  refine ⟨_, run_close_of_stat hstat, ?_⟩
  split
  · rename_i hmode
    exact ⟨⟨mode, hstat, hmode⟩, .inl rfl⟩
  · have hlocate' := (grows_put_withMode hfind directoryMode).locate_eq hlocate
    exact ⟨⟨directoryMode, stat_of_locate hlocate' (find?_put_self ..), by decide⟩, .inr rfl⟩

theorem run_secureDirectory (h : Readies fs directory ready) :
    ∃ secured, (secureDirectory directory).run.run fs = (.ok (), secured) ∧
      Secures directory ready secured := by
  rw [run_secureDirectory_eq]
  cases h with
  | found hdirectory =>
      rw [if_pos (holds_of_isDirectory hdirectory)]
      exact run_close hdirectory
  | made habsent hmade hdirectory =>
      rw [if_neg (by simp [habsent]), Change.run_bind_of_ok hmade]
      exact run_close hdirectory

/-- What securing a directory does at most, whether it succeeds or not. -/
structure SecuresAtMost (directory : Text) (made : Location → Prop) (fs : FileSystem)
    (result : Except KeyError Unit × FileSystem) : Prop where
  grows : Grows fs result.2
  changesOnly : ChangesOnly [fs.place directory] made fs result.2
  isClosed : result.1 = .ok () → IsClosed result.2 directory

theorem securesAtMost_close (directory : Text) (made : Location → Prop) (fs : FileSystem) :
    SecuresAtMost directory made fs ((close directory).run.run fs) := by
  rcases hstat : fs.stat directory with fault | node
  · have hlook : (Change.look (·.stat directory)).run.run fs = (.error (.io fault), fs) := by
      rw [Change.run_look, hstat]
    rw [close, Change.run_bind_of_error hlook]
    exact ⟨.refl fs, .refl _ made fs, nofun⟩
  obtain ⟨hlocate, hfind⟩ := stat_eq_ok_iff_place.1 hstat
  rw [run_close_of_stat hstat]
  split
  · rename_i hmode
    exact ⟨.refl fs, .refl _ made fs, fun _ => ⟨node, hstat, hmode⟩⟩
  · have hgrows := grows_put_withMode hfind directoryMode
    refine ⟨hgrows, .put List.mem_cons_self made fs _, fun _ => ?_⟩
    refine ⟨_, stat_of_locate (hgrows.locate_eq hlocate) (find?_put_self ..), ?_⟩
    rw [Node.mode_withMode]
    decide

theorem securesAtMost_secureDirectory (directory : Text) (fs : FileSystem) :
    SecuresAtMost directory (fs.OnTheWay directory) fs
      ((secureDirectory directory).run.run fs) := by
  rw [run_secureDirectory_eq]
  split
  · exact securesAtMost_close directory _ fs
  have hmakes := Change.makes_settleAll directory fs
  have hmade := hmakes.changesOnly.mono (List.nil_subset [fs.place directory]) fun _ => id
  rcases hrun : (Change.settleAll directory).run.run fs with ⟨e | ⟨⟩, ready⟩
  · rw [hrun] at hmakes hmade
    rw [Change.run_bind_of_error hrun]
    exact ⟨hmakes.grows, hmade, nofun⟩
  · rw [hrun] at hmakes hmade
    rw [Change.run_bind_of_ok hrun]
    have hclose := securesAtMost_close directory (fs.OnTheWay directory) ready
    have hclosed := hclose.changesOnly
    rw [hmakes.grows.place_eq] at hclosed
    exact ⟨hmakes.grows.trans hclose.grows, hmade.trans hclosed, hclose.isClosed⟩

/-- There is nothing to do for a directory that is closed. -/
theorem IsClosed.run_secureDirectory (h : IsClosed fs directory) :
    (secureDirectory directory).run.run fs = (.ok (), fs) := by
  obtain ⟨node, hstat, hmode⟩ := h
  have hholds : fs.holds directory = true := holds_iff.2 ⟨node, hstat⟩
  rw [run_secureDirectory_eq, if_pos hholds, run_close_of_stat hstat, if_pos hmode]

namespace Secures

theorem grows (h : Secures directory ready secured) : Grows ready secured := by
  rcases h.eq_or_eq_put with rfl | rfl
  · exact .refl _
  · exact .put fun _ => ⟨directoryMode, rfl⟩

theorem changesOnly (h : Secures directory ready secured) (made : Location → Prop) :
    ChangesOnly [ready.place directory] made ready secured := by
  rcases h.eq_or_eq_put with rfl | rfl
  · exact .refl _ made _
  · exact .put List.mem_cons_self made ready _

theorem isDirectory (h : Secures directory ready secured) :
    secured.isDirectory directory = true := by
  obtain ⟨mode, hstat, -⟩ := h.stat
  rw [FileSystem.isDirectory, hstat]

theorem find?_eq (h : Secures directory ready secured) (hl : l ≠ ready.place directory) :
    secured.find? l = ready.find? l := by
  rcases h.eq_or_eq_put with rfl | rfl
  · rfl
  · rw [find?_put, if_neg hl]

/-- What is seen under other paths is the same. -/
theorem stat_eq (h : Secures directory ready secured) (hready : ready.isDirectory directory = true)
    (hpath : ready.place path ≠ ready.place directory) : secured.stat path = ready.stat path := by
  rcases h.eq_or_eq_put with rfl | rfl
  · rfl
  · exact stat_put_directory (isDirectory_iff_place.1 hready).2 directoryMode hpath

end Secures

/-! ### Files -/

variable {contents : Bytes} {mode : Mode}

/-- The three steps together. -/
theorem run_writeSteps (hlocate : fs.locate path = .ok l) (h : ¬fs.DirectoryAt l)
    (contents : Bytes) (mode : Mode) :
    (Change.actAll (writeSteps path contents mode)).run.run fs =
      (.ok (), fs.put l (.file mode contents)) := by
  obtain ⟨opened, hopen⟩ := openTruncated_of_locate hlocate h mode
  have hlocate' (node : Node) : (fs.put l node).locate path = .ok l :=
    (grows_put_file h node).locate_eq hlocate
  have happend : (fs.put l (.file opened [])).append path contents =
      .ok (fs.put l (.file opened contents)) := by
    rw [append_of_locate (hlocate' _) (find?_put_self ..), put_put, List.nil_append]
  have hset : (fs.put l (.file opened contents)).setMode path mode =
      .ok (fs.put l (.file mode contents)) := by
    rw [setMode_of_locate (hlocate' _) (find?_put_self ..), put_put]
    rfl
  have hopened := Change.run_act_of_ok (a := .openTruncated path mode) hopen
  have happended := Change.run_act_of_ok (a := .append path contents) happend
  have hclosed := Change.run_act_of_ok (a := .setMode path mode) hset
  rw [writeSteps, Change.actAll, Change.run_bind_of_ok hopened, Change.actAll,
    Change.run_bind_of_ok happended, Change.actAll, Change.run_bind_of_ok hclosed]
  rfl

/-- A file is written whole, unless a directory is in the way. -/
theorem run_writeSteps_eq_ok_iff :
    (Change.actAll (writeSteps path contents mode)).run.run fs = (.ok (), fs') ↔
      ∃ l, fs.locate path = .ok l ∧ ¬fs.DirectoryAt l ∧
        fs' = fs.put l (.file mode contents) := by
  constructor
  · intro h
    have hfirst := h
    rw [writeSteps, Change.actAll, Change.run_bind_eq_ok_iff] at hfirst
    obtain ⟨u, opened, hopen, -⟩ := hfirst
    obtain ⟨l, hlocate, hdirectory⟩ := locate_of_openTruncated (Change.run_act_eq_ok_iff.1 hopen)
    refine ⟨l, hlocate, hdirectory, ?_⟩
    rw [run_writeSteps hlocate hdirectory] at h
    exact (Prod.mk.inj h).2.symm
  · rintro ⟨l, hlocate, hdirectory, rfl⟩
    exact run_writeSteps hlocate hdirectory contents mode

/-! ### Pairs -/

theorem isName_fileName (keyType : KeyType) : IsName keyType.fileName := by
  constructor <;> cases keyType <;> decide

theorem isName_publicFileName (keyType : KeyType) :
    IsName (keyType.fileName ++ ".pub".toList) := by
  constructor <;> cases keyType <;> decide

theorem publicPathOf_privateKeyPath (directory : Text) (keyType : KeyType) :
    publicPathOf (privateKeyPath directory keyType) =
      Path.join directory (keyType.fileName ++ ".pub".toList) :=
  Path.join_append ..

theorem place_privateKeyPath (fs : FileSystem) (directory : Text) (keyType : KeyType) :
    fs.place (privateKeyPath directory keyType) = keyType.fileName :: fs.place directory :=
  place_join (isName_fileName keyType) directory

theorem place_publicPathOf (fs : FileSystem) (directory : Text) (keyType : KeyType) :
    fs.place (publicPathOf (privateKeyPath directory keyType)) =
      (keyType.fileName ++ ".pub".toList) :: fs.place directory := by
  rw [publicPathOf_privateKeyPath, place_join (isName_publicFileName keyType)]

/-- The two files of a pair are never the same. -/
theorem place_publicPathOf_ne (fs : FileSystem) (directory : Text) (keyType : KeyType) :
    fs.place (publicPathOf (privateKeyPath directory keyType)) ≠
      fs.place (privateKeyPath directory keyType) := by
  rw [place_publicPathOf, place_privateKeyPath]
  intro h
  have hname : keyType.fileName ++ ".pub".toList = keyType.fileName := (List.cons.inj h).1
  simp at hname

/-- The part of a save that writes, after nothing has spoken against it. -/
def writePair (directory : Text) (pair : KeyPair) : Change SavedPaths := do
  let privatePath := privateKeyPath directory pair.keyType
  let publicPath := publicPathOf privatePath
  secureDirectory directory
  Change.actAll (writeSteps privatePath pair.privateKey.utf8 privateKeyMode)
  Change.actAll (writeSteps publicPath (publicKeyFile pair).utf8 publicKeyMode)
  return ⟨privatePath, publicPath⟩

theorem run_save_eq (directory : Text) (pair : KeyPair) (overwrite : Bool) (fs : FileSystem) :
    (save directory pair overwrite).run.run fs =
      if overwrite then (writePair directory pair).run.run fs
      else (firstTaken fs [privateKeyPath directory pair.keyType,
        publicPathOf (privateKeyPath directory pair.keyType)]).elim
          ((writePair directory pair).run.run fs)
          fun taken => (.error (.keyFileExists taken), fs) := by
  rw [save, Change.run_bind_of_ok (x := get) (a := fs) rfl]
  cases overwrite with
  | true => rfl
  | false =>
      cases firstTaken fs [privateKeyPath directory pair.keyType,
        publicPathOf (privateKeyPath directory pair.keyType)] <;> rfl

/-- A save that succeeds has written. -/
theorem run_writePair_of_run_save {pair : KeyPair} {overwrite : Bool} {saved : SavedPaths}
    (h : (save directory pair overwrite).run.run fs = (.ok saved, fs')) :
    (writePair directory pair).run.run fs = (.ok saved, fs') := by
  rw [run_save_eq] at h
  split at h
  · exact h
  · cases hfree : firstTaken fs [privateKeyPath directory pair.keyType,
      publicPathOf (privateKeyPath directory pair.keyType)] with
    | none => rwa [hfree] at h
    | some taken =>
        rw [hfree] at h
        cases h

/-- What a save that succeeds leaves under the paths that it returns. -/
theorem stat_of_run_save {pair : KeyPair} {overwrite : Bool} {saved : SavedPaths}
    (h : (save directory pair overwrite).run.run fs = (.ok saved, fs')) :
    fs'.stat saved.privateKey = .ok (.file privateKeyMode pair.privateKey.utf8) ∧
      fs'.stat saved.publicKey = .ok (.file publicKeyMode (publicKeyFile pair).utf8) := by
  have hwrite := run_writePair_of_run_save h
  simp only [writePair, Change.run_bind_eq_ok_iff] at hwrite
  obtain ⟨⟨⟩, secured, -, ⟨⟩, written, hprivate, ⟨⟩, done, hpublic, hreturn⟩ := hwrite
  cases hreturn
  obtain ⟨l, hlocate, hfree, rfl⟩ := run_writeSteps_eq_ok_iff.1 hprivate
  obtain ⟨l', hlocate', hfree', rfl⟩ := run_writeSteps_eq_ok_iff.1 hpublic
  let privateFile : Node := .file privateKeyMode pair.privateKey.utf8
  let publicFile : Node := .file publicKeyMode (publicKeyFile pair).utf8
  have hgrows : Grows (secured.put l privateFile) ((secured.put l privateFile).put l' publicFile) :=
    grows_put_file hfree' publicFile
  have hne : l ≠ l' := by
    rw [(locate_eq_ok_iff.1 hlocate).2.2, (locate_eq_ok_iff.1 hlocate').2.2]
    exact (place_publicPathOf_ne secured directory pair.keyType).symm
  constructor
  · have hlocated := (grows_put_file hfree privateFile).locate_eq hlocate
    refine stat_of_locate (hgrows.locate_eq hlocated) ?_
    rw [find?_put, if_neg hne, find?_put_self]
  · exact stat_of_locate (hgrows.locate_eq hlocate') (find?_put_self ..)

end SshKeys.KeyFiles
