import SshKeys.Proofs.FileSystem.Frame
import SshKeys.Proofs.KeyFiles.Writing

/-!
What saving a pair leaves as it was.

A save has few ways to end, and `SavingEnds` lists them: no file is written, or
the private one only, or both. What a save touches, what it leaves behind and
which files it writes over are then read off case by case.

Whether a file is in the way is asked before the directory is made, and what can
not be looked up is taken to be missing. So a file whose path is too long is not
seen, but it can not be opened either (`holds_pairPath_iff`). A path that leads
through a directory that is missing and out of it again leads nowhere at that
time, but it may lead to a file once the directory is there. Such a file is
written over, and no other is.
-/

namespace SshKeys.KeyFiles

open FileSystem

variable {fs fs' ready ready' secured : FileSystem} {directory path : Text} {pair : KeyPair}

/-! ### Securing -/

/-- There is one state in which a directory is there to be used. -/
theorem Readies.eq (h : Readies fs directory ready) (h' : Readies fs directory ready') :
    ready' = ready := by
  cases h with
  | found hdirectory =>
      cases h' with
      | found => rfl
      | made habsent => simp [holds_of_isDirectory hdirectory] at habsent
  | made habsent hmade =>
      cases h' with
      | found hdirectory => simp [holds_of_isDirectory hdirectory] at habsent
      | made _ hmade' => exact (Prod.mk.inj (hmade'.symm.trans hmade)).2

theorem Secures.grows_back (h : Secures directory ready secured)
    (hdirectory : ready.isDirectory directory = true) : Grows secured ready := by
  rcases h.eq_or_eq_put with rfl | rfl
  · exact .refl _
  · exact grows_of_put_directory (isDirectory_iff_place.1 hdirectory).2 directoryMode

theorem Secures.writable_iff (h : Secures directory ready secured)
    (hdirectory : ready.isDirectory directory = true) :
    secured.Writable path ↔ ready.Writable path :=
  writable_iff_of_grows h.grows (h.grows_back hdirectory)

theorem Secures.keepsFiles (h : Secures directory ready secured)
    (hdirectory : ready.isDirectory directory = true) : KeepsFiles ready secured := by
  rcases h.eq_or_eq_put with rfl | rfl
  · exact .refl _
  · obtain ⟨-, old, hfind⟩ := isDirectory_iff_place.1 hdirectory
    exact .put_withMode hfind directoryMode

/-- The ways in which securing a directory ends. -/
inductive SecuringEnds (directory : Text) (fs : FileSystem) :
    Except KeyError Unit × FileSystem → Prop
  /-- nothing came to have the name -/
  | failed {ready : FileSystem} (e : KeyError) (hmakes : Makes (fs.OnTheWay directory) fs ready) :
      SecuringEnds directory fs (.error e, ready)
  | secured {ready secured : FileSystem} (hready : Readies fs directory ready)
      (hsecures : Secures directory ready secured) : SecuringEnds directory fs (.ok (), secured)
  /-- a file has the name, and only its mode is set -/
  | file {ready closed : FileSystem} {mode : Mode} {contents : Bytes}
      (hmakes : Makes (fs.OnTheWay directory) fs ready)
      (hfile : ready.find? (ready.place directory) = some (.file mode contents))
      (hclosed : closed = ready ∨
        closed = ready.put (ready.place directory) (.file directoryMode contents)) :
      SecuringEnds directory fs (.ok (), closed)

theorem securingEnds_close (hmakes : Makes (fs.OnTheWay directory) fs ready)
    (hready : ready.isDirectory directory = true → Readies fs directory ready) :
    SecuringEnds directory fs ((close directory).run.run ready) := by
  rcases hstat : ready.stat directory with fault | ⟨mode, contents⟩ | mode
  · have hlook : (Change.look (·.stat directory)).run.run ready = (.error (.io fault), ready) := by
      rw [Change.run_look, hstat]
    rw [close, Change.run_bind_of_error hlook]
    exact .failed _ hmakes
  · rw [run_close_of_stat hstat]
    refine .file hmakes (stat_eq_ok_iff_place.1 hstat).2 ?_
    split
    · exact .inl rfl
    · exact .inr rfl
  · have hdirectory : ready.isDirectory directory = true := by rw [isDirectory, hstat]
    obtain ⟨secured, hclose, hsecures⟩ := run_close hdirectory
    rw [hclose]
    exact .secured (hready hdirectory) hsecures

theorem securingEnds_secureDirectory (directory : Text) (fs : FileSystem) :
    SecuringEnds directory fs ((secureDirectory directory).run.run fs) := by
  rw [run_secureDirectory_eq]
  by_cases hholds : fs.holds directory = true
  · rw [if_pos hholds]
    exact securingEnds_close (.refl _ fs) .found
  · rw [if_neg hholds]
    have hmakes := Change.makes_settleAll directory fs
    rcases hrun : (Change.settleAll directory).run.run fs with ⟨e | ⟨⟩, ready⟩
    · rw [hrun] at hmakes
      rw [Change.run_bind_of_error hrun]
      exact .failed e hmakes
    · rw [hrun] at hmakes
      rw [Change.run_bind_of_ok hrun]
      exact securingEnds_close hmakes (.made (by simpa using hholds) hrun)

/-! ### Writing the files -/

/-- The part of a save that follows the securing of the directory. -/
def writeFiles (directory : Text) (pair : KeyPair) : Change SavedPaths := do
  let privatePath := privateKeyPath directory pair.keyType
  let publicPath := publicPathOf privatePath
  Change.actAll (writeSteps privatePath pair.privateKey.utf8 privateKeyMode)
  Change.actAll (writeSteps publicPath (publicKeyFile pair).utf8 publicKeyMode)
  return ⟨privatePath, publicPath⟩

theorem run_writeSteps_of_writable (h : fs.Writable path) (contents : Bytes) (mode : Mode) :
    (Change.actAll (writeSteps path contents mode)).run.run fs =
      (.ok (), fs.put (fs.place path) (.file mode contents)) :=
  run_writeSteps h.locate h.free contents mode

/-- Where no file can be written nothing is changed. -/
theorem run_writeSteps_of_not_writable (h : ¬fs.Writable path) (contents : Bytes) (mode : Mode) :
    ∃ e, (Change.actAll (writeSteps path contents mode)).run.run fs = (.error e, fs) := by
  rcases hopen : fs.openTruncated path mode with fault | opened
  · refine ⟨.io fault, ?_⟩
    have hact : (Change.act (.openTruncated path mode)).run.run fs = (.error (.io fault), fs) := by
      rw [Change.run_act, FileSystem.apply, hopen]
    rw [writeSteps, Change.actAll, Change.run_bind_of_error hact]
  · obtain ⟨l, hlocate, hfree⟩ := locate_of_openTruncated hopen
    obtain rfl := (locate_eq_ok_iff.1 hlocate).2.2
    exact absurd ⟨hlocate, hfree⟩ h

/-- The private key file of a pair. -/
def privateNode (pair : KeyPair) : Node :=
  .file privateKeyMode pair.privateKey.utf8

/-- The public key file of a pair. -/
def publicNode (pair : KeyPair) : Node :=
  .file publicKeyMode (publicKeyFile pair).utf8

section

variable (directory : Text) (pair : KeyPair) (fs : FileSystem)

/-- The state with the private key in its place. -/
def withPrivate : FileSystem :=
  fs.put (fs.place (privateKeyPath directory pair.keyType)) (privateNode pair)

/-- The state with both keys in their places. -/
def withBoth : FileSystem :=
  (withPrivate directory pair fs).put
    (fs.place (publicPathOf (privateKeyPath directory pair.keyType))) (publicNode pair)

end

theorem grows_withPrivate (h : fs.Writable (privateKeyPath directory pair.keyType)) :
    Grows fs (withPrivate directory pair fs) :=
  grows_put_file h.free _

/-- The first file leaves all directories as they are, so the second one has the room it had. -/
theorem writable_withPrivate_iff (h : fs.Writable (privateKeyPath directory pair.keyType)) :
    (withPrivate directory pair fs).Writable path ↔ fs.Writable path :=
  writable_iff_of_grows (grows_withPrivate h) (grows_of_put_file ..)

/-- The files are written one after the other, as far as there is room for them. -/
theorem run_writeFiles (directory : Text) (pair : KeyPair) (fs : FileSystem) :
    let privatePath := privateKeyPath directory pair.keyType
    let publicPath := publicPathOf privatePath
    (¬fs.Writable privatePath → ∃ e, (writeFiles directory pair).run.run fs = (.error e, fs)) ∧
      (fs.Writable privatePath → ¬fs.Writable publicPath → ∃ e,
        (writeFiles directory pair).run.run fs = (.error e, withPrivate directory pair fs)) ∧
      (fs.Writable privatePath → fs.Writable publicPath →
        (writeFiles directory pair).run.run fs =
          (.ok ⟨privatePath, publicPath⟩, withBoth directory pair fs)) := by
  intro privatePath publicPath
  have hfirst (h : fs.Writable privatePath) :
      (Change.actAll (writeSteps privatePath pair.privateKey.utf8 privateKeyMode)).run.run fs =
        (.ok (), withPrivate directory pair fs) :=
    run_writeSteps_of_writable h pair.privateKey.utf8 privateKeyMode
  refine ⟨fun h => ?_, fun h h' => ?_, fun h h' => ?_⟩
  · obtain ⟨e, hrun⟩ := run_writeSteps_of_not_writable h pair.privateKey.utf8 privateKeyMode
    exact ⟨e, Change.run_bind_of_error hrun⟩
  · obtain ⟨e, hrun⟩ := run_writeSteps_of_not_writable (mt (writable_withPrivate_iff h).1 h')
      (publicKeyFile pair).utf8 publicKeyMode
    exact ⟨e, (Change.run_bind_of_ok (hfirst h)).trans (Change.run_bind_of_error hrun)⟩
  · have hrun := run_writeSteps_of_writable ((writable_withPrivate_iff h).2 h')
      (publicKeyFile pair).utf8 publicKeyMode
    rw [(grows_withPrivate h).place_eq] at hrun
    exact (Change.run_bind_of_ok (hfirst h)).trans (Change.run_bind_of_ok hrun)

/-! ### The ways in which a save ends -/

/-- The directory of a pair and its two files. -/
def savedAt (fs : FileSystem) (directory : Text) (keyType : KeyType) : List Location :=
  [fs.place directory, fs.place (privateKeyPath directory keyType),
    fs.place (publicPathOf (privateKeyPath directory keyType))]

/-- The ways in which writing a pair ends. -/
inductive SavingEnds (directory : Text) (pair : KeyPair) (fs : FileSystem) :
    Except KeyError SavedPaths × FileSystem → Prop
  /-- whatever the directory becomes, there is no room for the private key in it -/
  | neither {stopped : FileSystem} (e : KeyError)
      (htouches : Touches [fs.place directory] (fs.OnTheWay directory) fs stopped)
      (hkeeps : KeepsFiles fs stopped)
      (hblocked : ∀ ready, Readies fs directory ready →
        ¬ready.Writable (privateKeyPath directory pair.keyType)) :
      SavingEnds directory pair fs (.error e, stopped)
  | privateOnly {ready secured : FileSystem} (e : KeyError) (hready : Readies fs directory ready)
      (hsecures : Secures directory ready secured)
      (hprivate : ready.Writable (privateKeyPath directory pair.keyType))
      (hpublic : ¬ready.Writable (publicPathOf (privateKeyPath directory pair.keyType))) :
      SavingEnds directory pair fs (.error e, withPrivate directory pair secured)
  | both {ready secured : FileSystem} (hready : Readies fs directory ready)
      (hsecures : Secures directory ready secured)
      (hprivate : ready.Writable (privateKeyPath directory pair.keyType))
      (hpublic : ready.Writable (publicPathOf (privateKeyPath directory pair.keyType))) :
      SavingEnds directory pair fs
        (.ok ⟨privateKeyPath directory pair.keyType,
          publicPathOf (privateKeyPath directory pair.keyType)⟩, withBoth directory pair secured)

theorem Secures.touches (h : Secures directory ready secured)
    (hready : Readies fs directory ready) :
    Touches [fs.place directory] (fs.OnTheWay directory) fs secured := by
  have hmakes := hready.makes
  have hsecured := h.changesOnly (fs.OnTheWay directory)
  rw [hmakes.grows.place_eq] at hsecured
  exact (Touches.of_makes hmakes _).trans ⟨h.grows, hsecured⟩

/-- Where a file has the name of the directory, only its mode is set. -/
theorem touches_closed_file {closed : FileSystem} {mode : Mode} {contents : Bytes}
    (hmakes : Makes (fs.OnTheWay directory) fs ready)
    (hfile : ready.find? (ready.place directory) = some (.file mode contents))
    (hclosed : closed = ready ∨
      closed = ready.put (ready.place directory) (.file directoryMode contents)) :
    Touches [fs.place directory] (fs.OnTheWay directory) fs closed ∧ KeepsFiles fs closed ∧
      ¬closed.DirectoryAt (closed.place directory) := by
  have hmade : Touches [fs.place directory] (fs.OnTheWay directory) fs ready := .of_makes hmakes _
  have hfree : ¬ready.DirectoryAt (ready.place directory) := by simp [DirectoryAt, hfile]
  rcases hclosed with rfl | rfl
  · exact ⟨hmade, .of_makes hmakes, hfree⟩
  · have hplace : ready.place directory ∈ [fs.place directory] := by
      simp [hmakes.grows.place_eq]
    refine ⟨hmade.trans (.put_file hfree hplace _ _), ?_, ?_⟩
    · exact (KeepsFiles.of_makes hmakes).trans (.put_withMode hfile directoryMode)
    · exact mt ((grows_of_put_file ..).directoryAt _) hfree

theorem savingEnds_writeFiles (hready : Readies fs directory ready)
    (hsecures : Secures directory ready secured) (pair : KeyPair) :
    SavingEnds directory pair fs ((writeFiles directory pair).run.run secured) := by
  obtain ⟨hneither, hprivateOnly, hboth⟩ := run_writeFiles directory pair secured
  simp only [hsecures.writable_iff hready.isDirectory] at hneither hprivateOnly hboth
  by_cases hprivate : ready.Writable (privateKeyPath directory pair.keyType)
  · by_cases hpublic : ready.Writable (publicPathOf (privateKeyPath directory pair.keyType))
    · rw [hboth hprivate hpublic]
      exact .both hready hsecures hprivate hpublic
    · obtain ⟨e, hstopped⟩ := hprivateOnly hprivate hpublic
      rw [hstopped]
      exact .privateOnly e hready hsecures hprivate hpublic
  · obtain ⟨e, hstopped⟩ := hneither hprivate
    rw [hstopped]
    refine .neither e (hsecures.touches hready) ?_ fun ready' hready' => ?_
    · exact (KeepsFiles.of_makes hready.makes).trans (hsecures.keepsFiles hready.isDirectory)
    · rwa [hready.eq hready']

theorem savingEnds_writePair (directory : Text) (pair : KeyPair) (fs : FileSystem) :
    SavingEnds directory pair fs ((writePair directory pair).run.run fs) := by
  have hends := securingEnds_secureDirectory directory fs
  rcases hrun : (secureDirectory directory).run.run fs with ⟨result, state⟩
  rw [hrun] at hends
  have hwrite (h : result = .ok ()) : (writePair directory pair).run.run fs =
      (writeFiles directory pair).run.run state := by
    rw [h] at hrun
    exact Change.run_bind_of_ok hrun
  cases hends with
  | failed e hmakes =>
      rw [writePair, Change.run_bind_of_error hrun]
      refine .neither e (.of_makes hmakes _) (.of_makes hmakes) fun ready hready => ?_
      obtain ⟨secured, hsecured, -⟩ := run_secureDirectory hready
      cases hrun.symm.trans hsecured
  | file hmakes hfile hclosed =>
      obtain ⟨htouches, hkeeps, hfree⟩ := touches_closed_file hmakes hfile hclosed
      have hblocked : ¬state.Writable (privateKeyPath directory pair.keyType) := fun h =>
        hfree (directoryAt_of_locate_join (isName_fileName pair.keyType) h.locate)
      obtain ⟨e, hstopped⟩ := (run_writeFiles directory pair state).1 hblocked
      rw [hwrite rfl, hstopped]
      refine .neither e htouches hkeeps fun ready hready => ?_
      -- a directory that is there in some state is there in the one that was found
      obtain ⟨secured, hsecured, hsecures⟩ := run_secureDirectory hready
      cases hrun.symm.trans hsecured
      exact absurd (isDirectory_iff_place.1 hsecures.isDirectory).2 hfree
  | secured hready hsecures =>
      rw [hwrite rfl]
      exact savingEnds_writeFiles hready hsecures pair

/-! ### What a save touches -/

theorem touches_withPrivate (h : fs.Writable (privateKeyPath directory pair.keyType))
    (made : Location → Prop) :
    Touches (savedAt fs directory pair.keyType) made fs (withPrivate directory pair fs) :=
  .put_file h.free (by simp [savedAt]) made _

theorem touches_withBoth (h : fs.Writable (privateKeyPath directory pair.keyType))
    (h' : fs.Writable (publicPathOf (privateKeyPath directory pair.keyType)))
    (made : Location → Prop) :
    Touches (savedAt fs directory pair.keyType) made fs (withBoth directory pair fs) :=
  (touches_withPrivate h made).trans
    (.put_file (mt ((grows_of_put_file ..).directoryAt _) h'.free) (by simp [savedAt]) made _)

theorem savedAt_of_grows (h : Grows fs fs') (directory : Text) (keyType : KeyType) :
    savedAt fs' directory keyType = savedAt fs directory keyType := by
  simp only [savedAt, h.place_eq]

/-- What is written after the directory has been secured. -/
theorem Secures.touches_trans {keyType : KeyType} (h : Secures directory ready secured)
    (hready : Readies fs directory ready)
    (hwritten : Touches (savedAt secured directory keyType) (fs.OnTheWay directory) secured fs') :
    Touches (savedAt fs directory keyType) (fs.OnTheWay directory) fs fs' := by
  have hsecured := h.touches hready
  rw [savedAt_of_grows hsecured.grows] at hwritten
  exact (hsecured.mono (by simp [savedAt]) fun _ => id).trans hwritten

/-- However a save ends, it touches the directory and the two files, and makes directories on the
way to the directory. -/
theorem SavingEnds.touches {result : Except KeyError SavedPaths}
    (h : SavingEnds directory pair fs (result, fs')) :
    Touches (savedAt fs directory pair.keyType) (fs.OnTheWay directory) fs fs' := by
  cases h with
  | neither e htouches => exact htouches.mono (by simp [savedAt]) fun _ => id
  | privateOnly e hready hsecures hprivate =>
      have hprivate' := (hsecures.writable_iff hready.isDirectory).2 hprivate
      exact hsecures.touches_trans hready (touches_withPrivate hprivate' _)
  | both hready hsecures hprivate hpublic =>
      have hprivate' := (hsecures.writable_iff hready.isDirectory).2 hprivate
      have hpublic' := (hsecures.writable_iff hready.isDirectory).2 hpublic
      exact hsecures.touches_trans hready (touches_withBoth hprivate' hpublic' _)

theorem touches_save (directory : Text) (pair : KeyPair) (overwrite : Bool) (fs : FileSystem) :
    Touches (savedAt fs directory pair.keyType) (fs.OnTheWay directory) fs
      ((save directory pair overwrite).run.run fs).2 := by
  have hwrite := (savingEnds_writePair directory pair fs).touches
  rw [run_save_eq]
  cases overwrite with
  | true => exact hwrite
  | false =>
      cases firstTaken fs [privateKeyPath directory pair.keyType,
        publicPathOf (privateKeyPath directory pair.keyType)] with
      | none => exact hwrite
      | some taken => exact .refl _ _ fs

/-! ### What a save writes over -/

/-- The contents of the file that was there are gone. -/
def Overwritten (fs fs' : FileSystem) (l : Location) : Prop :=
  ∃ mode contents, fs.find? l = some (.file mode contents) ∧
    ∀ mode', fs'.find? l ≠ some (.file mode' contents)

theorem keepsFiles_iff : KeepsFiles fs fs' ↔ ∀ l, ¬Overwritten fs fs' l := by
  unfold KeepsFiles Overwritten
  simp only [not_exists, not_and, not_forall, not_not, ne_eq]

theorem not_overwritten_of_keepsFiles (h : KeepsFiles fs fs') (l : Location) :
    ¬Overwritten fs fs' l :=
  keepsFiles_iff.1 h l

/-- A file is there, with other contents than these. -/
def HoldsOther (fs : FileSystem) (l : Location) (contents : Bytes) : Prop :=
  ∃ mode old, fs.find? l = some (.file mode old) ∧ old ≠ contents

theorem overwritten_put_iff {l l' : Location} {mode : Mode} {contents : Bytes} :
    Overwritten fs (fs'.put l (.file mode contents)) l' ↔
      (l' = l ∧ HoldsOther fs l contents) ∨ (l' ≠ l ∧ Overwritten fs fs' l') := by
  unfold Overwritten HoldsOther
  simp only [find?_put]
  by_cases h : l' = l
  · subst h
    simp [eq_comm]
  · simp [h]

theorem overwritten_withPrivate_iff (h : KeepsFiles fs fs') {l : Location} :
    Overwritten fs (withPrivate directory pair fs') l ↔
      l = fs'.place (privateKeyPath directory pair.keyType) ∧
        HoldsOther fs l pair.privateKey.utf8 := by
  rw [withPrivate, privateNode, overwritten_put_iff]
  constructor
  · rintro (⟨rfl, hother⟩ | ⟨-, hover⟩)
    · exact ⟨rfl, hother⟩
    · exact absurd hover (not_overwritten_of_keepsFiles h l)
  · rintro ⟨rfl, hother⟩
    exact .inl ⟨rfl, hother⟩

theorem overwritten_withBoth_iff (h : KeepsFiles fs fs') {l : Location} :
    Overwritten fs (withBoth directory pair fs') l ↔
      (l = fs'.place (privateKeyPath directory pair.keyType) ∧
        HoldsOther fs l pair.privateKey.utf8) ∨
      (l = fs'.place (publicPathOf (privateKeyPath directory pair.keyType)) ∧
        HoldsOther fs l (publicKeyFile pair).utf8) := by
  have hne := place_publicPathOf_ne fs' directory pair.keyType
  rw [withBoth, publicNode, overwritten_put_iff, overwritten_withPrivate_iff h]
  constructor
  · rintro (⟨rfl, hother⟩ | ⟨-, hprivate⟩)
    · exact .inr ⟨rfl, hother⟩
    · exact .inl hprivate
  · rintro (⟨rfl, hother⟩ | ⟨rfl, hother⟩)
    · exact .inr ⟨hne.symm, rfl, hother⟩
    · exact .inl ⟨rfl, hother⟩

/-- The files that are written over once the directory is there. The public key is only written
after the private key. -/
inductive WritesOver (directory : Text) (pair : KeyPair) (fs ready : FileSystem) : Location → Prop
  | privateKey (hprivate : ready.Writable (privateKeyPath directory pair.keyType))
      (hother : HoldsOther fs (fs.place (privateKeyPath directory pair.keyType))
        pair.privateKey.utf8) :
      WritesOver directory pair fs ready (fs.place (privateKeyPath directory pair.keyType))
  | publicKey (hprivate : ready.Writable (privateKeyPath directory pair.keyType))
      (hpublic : ready.Writable (publicPathOf (privateKeyPath directory pair.keyType)))
      (hother : HoldsOther fs (fs.place (publicPathOf (privateKeyPath directory pair.keyType)))
        (publicKeyFile pair).utf8) :
      WritesOver directory pair fs ready
        (fs.place (publicPathOf (privateKeyPath directory pair.keyType)))

theorem WritesOver.writable {l : Location} (h : WritesOver directory pair fs ready l) :
    ready.Writable (privateKeyPath directory pair.keyType) := by
  cases h <;> assumption

theorem SavingEnds.overwritten_iff {result : Except KeyError SavedPaths} {l : Location}
    (h : SavingEnds directory pair fs (result, fs')) :
    Overwritten fs fs' l ↔
      ∃ ready, Readies fs directory ready ∧ WritesOver directory pair fs ready l := by
  cases h with
  | neither e htouches hkeeps hblocked =>
      constructor
      · intro h
        exact absurd h (not_overwritten_of_keepsFiles hkeeps l)
      · rintro ⟨ready, hready, h⟩
        exact absurd h.writable (hblocked ready hready)
  | @privateOnly ready secured e hready hsecures hprivate hpublic =>
      have hkeeps := (KeepsFiles.of_makes hready.makes).trans
        (hsecures.keepsFiles hready.isDirectory)
      rw [overwritten_withPrivate_iff hkeeps,
        (hready.makes.grows.trans hsecures.grows).place_eq]
      constructor
      · rintro ⟨rfl, hother⟩
        exact ⟨ready, hready, .privateKey hprivate hother⟩
      · rintro ⟨ready', hready', h⟩
        obtain rfl := hready.eq hready'
        cases h with
        | privateKey _ hother => exact ⟨rfl, hother⟩
        | publicKey _ hpublic' => exact absurd hpublic' hpublic
  | @both ready secured hready hsecures hprivate hpublic =>
      have hkeeps := (KeepsFiles.of_makes hready.makes).trans
        (hsecures.keepsFiles hready.isDirectory)
      have hgrows := hready.makes.grows.trans hsecures.grows
      rw [overwritten_withBoth_iff hkeeps, hgrows.place_eq, hgrows.place_eq]
      constructor
      · rintro (⟨rfl, hother⟩ | ⟨rfl, hother⟩)
        · exact ⟨ready, hready, .privateKey hprivate hother⟩
        · exact ⟨ready, hready, .publicKey hprivate hpublic hother⟩
      · rintro ⟨ready', hready', h⟩
        cases h with
        | privateKey _ hother => exact .inl ⟨rfl, hother⟩
        | publicKey _ _ hother => exact .inr ⟨rfl, hother⟩

/-! ### Saving without permission to overwrite -/

/-- The paths of the two halves of a pair. -/
def pairPaths (directory : Text) (keyType : KeyType) : List Text :=
  [privateKeyPath directory keyType, publicPathOf (privateKeyPath directory keyType)]

theorem run_save_of_free (h : fs.holds (privateKeyPath directory pair.keyType) = false)
    (h' : fs.holds (publicPathOf (privateKeyPath directory pair.keyType)) = false) :
    (save directory pair false).run.run fs = (writePair directory pair).run.run fs := by
  rw [run_save_eq]
  simp [firstTaken, h, h']

theorem run_save_of_private (h : fs.holds (privateKeyPath directory pair.keyType) = true) :
    (save directory pair false).run.run fs =
      (.error (.keyFileExists (privateKeyPath directory pair.keyType)), fs) := by
  rw [run_save_eq]
  simp [firstTaken, h]

theorem run_save_of_public (h : fs.holds (privateKeyPath directory pair.keyType) = false)
    (h' : fs.holds (publicPathOf (privateKeyPath directory pair.keyType)) = true) :
    (save directory pair false).run.run fs =
      (.error (.keyFileExists (publicPathOf (privateKeyPath directory pair.keyType))), fs) := by
  rw [run_save_eq]
  simp [firstTaken, h, h']

theorem overwritten_save_iff {l : Location} :
    Overwritten fs ((save directory pair false).run.run fs).2 l ↔
      fs.holds (privateKeyPath directory pair.keyType) = false ∧
        fs.holds (publicPathOf (privateKeyPath directory pair.keyType)) = false ∧
        ∃ ready, Readies fs directory ready ∧ WritesOver directory pair fs ready l := by
  cases hprivate : fs.holds (privateKeyPath directory pair.keyType) with
  | true => simp [run_save_of_private hprivate, not_overwritten_of_keepsFiles (.refl fs)]
  | false =>
      cases hpublic : fs.holds (publicPathOf (privateKeyPath directory pair.keyType)) with
      | true =>
          simp [run_save_of_public hprivate hpublic, not_overwritten_of_keepsFiles (.refl fs)]
      | false =>
          have hends := savingEnds_writePair directory pair fs
          rw [← run_save_of_free hprivate hpublic] at hends
          simp only [true_and]
          exact hends.overwritten_iff

/-- No file is written over in a directory that has been looked into. -/
theorem not_writesOver_self {l : Location}
    (hprivate : fs.holds (privateKeyPath directory pair.keyType) = false)
    (hpublic : fs.holds (publicPathOf (privateKeyPath directory pair.keyType)) = false) :
    ¬WritesOver directory pair fs fs l := by
  intro hwrites
  cases hwrites with
  | privateKey hwritable hother =>
      obtain ⟨mode, old, hfile, -⟩ := hother
      simp [(holds_iff_writable hfile).2 hwritable] at hprivate
  | publicKey _ hwritable hother =>
      obtain ⟨mode, old, hfile, -⟩ := hother
      simp [(holds_iff_writable hfile).2 hwritable] at hpublic

theorem keepsFiles_save_of_holds (h : fs.holds directory = true) :
    KeepsFiles fs ((save directory pair false).run.run fs).2 := by
  refine keepsFiles_iff.2 fun l hover => ?_
  obtain ⟨hprivate, hpublic, ready, hready, hwrites⟩ := overwritten_save_iff.1 hover
  cases hready with
  | found => exact not_writesOver_self hprivate hpublic hwrites
  | made habsent => simp [h] at habsent

/-- A file that is written over was below the place of the directory. -/
theorem WritesOver.exists_below {l : Location} (h : WritesOver directory pair fs ready l) :
    ∃ name node, fs.find? (name :: fs.place directory) = some node := by
  cases h with
  | privateKey _ hother =>
      obtain ⟨mode, old, hfile, -⟩ := hother
      rw [place_privateKeyPath] at hfile
      exact ⟨_, _, hfile⟩
  | publicKey _ _ hother =>
      obtain ⟨mode, old, hfile, -⟩ := hother
      rw [place_publicPathOf] at hfile
      exact ⟨_, _, hfile⟩

/-- On a way down all along, nothing comes into view when the directory is made. -/
theorem keepsFiles_save_of_descends (hrooted : fs.Rooted) (hdescends : Path.Descends directory) :
    KeepsFiles fs ((save directory pair false).run.run fs).2 := by
  refine keepsFiles_iff.2 fun l hover => ?_
  obtain ⟨hprivate, hpublic, ready, hready, hwrites⟩ := overwritten_save_iff.1 hover
  rcases hready.eq_or_empty hrooted hdescends with rfl | hempty
  · exact not_writesOver_self hprivate hpublic hwrites
  · obtain ⟨name, node, hfind⟩ := hwrites.exists_below
    nomatch (hempty name).symm.trans hfind

/-- In a directory that is there, a file is only missed if its path is too long. -/
theorem holds_pairPath_iff {keyType : KeyType} (hdirectory : fs.isDirectory directory = true)
    (hpath : path ∈ pairPaths directory keyType) (hheld : fs.find? (fs.place path) ≠ none) :
    fs.holds path = true ↔ path.utf8.length ≤ longestPath := by
  simp only [pairPaths, List.mem_cons, List.not_mem_nil, or_false] at hpath
  rcases hpath with rfl | rfl
  · exact holds_join_iff (isName_fileName keyType) hdirectory hheld
  · rw [publicPathOf_privateKeyPath] at hheld ⊢
    exact holds_join_iff (isName_publicFileName keyType) hdirectory hheld

/-! ### A save that succeeds -/

/-- What there is after a pair has been saved. -/
structure Saves (directory : Text) (pair : KeyPair) (saved : SavedPaths)
    (fs fs' : FileSystem) : Prop where
  privatePath : saved.privateKey = privateKeyPath directory pair.keyType
  publicPath : saved.publicKey = publicPathOf (privateKeyPath directory pair.keyType)
  closed : ∃ mode, fs'.stat directory = .ok (.directory mode) ∧ mode &&& 0o777 = 0o700
  privateFile : fs'.stat saved.privateKey = .ok (.file 0o600 pair.privateKey.utf8)
  publicFile : fs'.stat saved.publicKey = .ok (.file 0o644 (pair.publicKey ++ ['\n']).utf8)
  others : ChangesOnly
    [fs.place directory, fs.place saved.privateKey, fs.place saved.publicKey]
    (fs.OnTheWay directory) fs fs'
  otherType : ∀ keyType, keyType ≠ pair.keyType → ∀ path ∈ pairPaths directory keyType,
    ∀ node, fs.find? (fs.place path) = some node → fs'.find? (fs.place path) = some node

theorem fileName_ne {keyType other : KeyType} (hne : other ≠ keyType) :
    ∀ name ∈ [other.fileName, other.fileName ++ ".pub".toList],
      name ∉ [keyType.fileName, keyType.fileName ++ ".pub".toList] := by
  revert hne
  cases keyType <;> cases other <;> decide

/-- Pairs of different types have no file in common, and no file is in the place of the directory.
-/
theorem place_not_mem_savedAt {keyType other : KeyType} (hne : other ≠ keyType)
    (hpath : path ∈ pairPaths directory other) :
    fs.place path ∉ savedAt fs directory keyType := by
  have hplace : ∃ name ∈ [other.fileName, other.fileName ++ ".pub".toList],
      fs.place path = name :: fs.place directory := by
    simp only [pairPaths, List.mem_cons, List.not_mem_nil, or_false] at hpath
    rcases hpath with rfl | rfl
    · exact ⟨_, List.mem_cons_self, place_privateKeyPath fs directory other⟩
    · exact ⟨_, by simp, place_publicPathOf fs directory other⟩
  obtain ⟨name, hname, hplace⟩ := hplace
  have hother := fileName_ne hne name hname
  simpa [savedAt, hplace, place_privateKeyPath, place_publicPathOf] using hother

/-- The files are in the directory, and not in its place. -/
theorem stat_withBoth {node : Node} (hstat : fs.stat directory = .ok node)
    (h : fs.Writable (privateKeyPath directory pair.keyType))
    (h' : fs.Writable (publicPathOf (privateKeyPath directory pair.keyType))) :
    (withBoth directory pair fs).stat directory = .ok node := by
  obtain ⟨hlocate, hfind⟩ := stat_eq_ok_iff_place.1 hstat
  have hgrows := (touches_withBoth h h' fun _ => False).grows
  refine stat_of_locate (hgrows.locate_eq hlocate) ?_
  simp only [withBoth, withPrivate, find?_put, place_privateKeyPath, place_publicPathOf,
    List.ne_cons_self, if_false, hfind]

theorem saves_of_run_save {overwrite : Bool} {saved : SavedPaths}
    (h : (save directory pair overwrite).run.run fs = (.ok saved, fs')) :
    Saves directory pair saved fs fs' := by
  have htouches := touches_save directory pair overwrite fs
  obtain ⟨hprivateFile, hpublicFile⟩ := stat_of_run_save h
  have hends := savingEnds_writePair directory pair fs
  rw [run_writePair_of_run_save h] at hends
  rw [h] at htouches
  cases hends with
  | both hready hsecures hprivate hpublic =>
      obtain ⟨mode, hstat, hmode⟩ := hsecures.stat
      have hclosed := stat_withBoth hstat ((hsecures.writable_iff hready.isDirectory).2 hprivate)
        ((hsecures.writable_iff hready.isDirectory).2 hpublic)
      refine ⟨rfl, rfl, ⟨mode, hclosed, hmode⟩, hprivateFile, hpublicFile, htouches.changesOnly,
        fun keyType hne path hpath node hnode => ?_⟩
      rcases htouches.changesOnly _ (place_not_mem_savedAt hne hpath) with hsame | ⟨hnone, -⟩
      · exact hsame.trans hnode
      · simp [hnode] at hnone

/-- Without permission to overwrite, a half that is found is named and nothing is changed, and what
is there is found unless its path is too long. No file is written over if the path of the directory
leads down or the directory is there, and otherwise only what comes into view when the directory is
made. A save that succeeds leaves the two files and the closed directory, and nothing else is
different. -/
theorem save_changes (fs : FileSystem) (directory : Text) (pair : KeyPair) :
    let privatePath := privateKeyPath directory pair.keyType
    let publicPath := publicPathOf privatePath
    let refusing := (save directory pair false).run.run fs
    (fs.holds privatePath = true → refusing = (.error (.keyFileExists privatePath), fs)) ∧
      (fs.holds privatePath = false → fs.holds publicPath = true →
        refusing = (.error (.keyFileExists publicPath), fs)) ∧
      (fs.isDirectory directory = true → ∀ path ∈ pairPaths directory pair.keyType,
        fs.find? (fs.place path) ≠ none →
          (fs.holds path = true ↔ path.utf8.length ≤ longestPath)) ∧
      (fs.Rooted → Path.Descends directory → KeepsFiles fs refusing.2) ∧
      (fs.holds directory = true → KeepsFiles fs refusing.2) ∧
      (∀ l, Overwritten fs refusing.2 l ↔
        fs.holds privatePath = false ∧ fs.holds publicPath = false ∧
          ∃ ready, Readies fs directory ready ∧ WritesOver directory pair fs ready l) ∧
      ∀ overwrite saved fs', (save directory pair overwrite).run.run fs = (.ok saved, fs') →
        Saves directory pair saved fs fs' :=
  ⟨run_save_of_private, run_save_of_public, fun hdirectory _ => holds_pairPath_iff hdirectory,
    keepsFiles_save_of_descends, keepsFiles_save_of_holds, fun _ => overwritten_save_iff,
    fun _ _ _ => saves_of_run_save⟩

/-- A directory with one old half in it: it is refused, and then written over on demand. -/
theorem save_changes_half_present :
    let pair : KeyPair := ⟨"ssh-ed25519 AAAA".toList, "private".toList, .ed25519⟩
    let fs := (FileSystem.empty.put ["d".toList] (.directory 0o2755)).put
      ["id_ed25519.pub".toList, "d".toList] (.file 0o666 [1, 2, 3])
    let refusing := (save "d".toList pair false).run.run fs
    fs.Rooted ∧ Path.Descends "d".toList ∧
      refusing = (.error (.keyFileExists "d/id_ed25519.pub".toList), fs) ∧
      KeepsFiles fs refusing.2 ∧
      ∃ saved fs', (save "d".toList pair true).run.run fs = (.ok saved, fs') ∧
        Saves "d".toList pair saved fs fs' := by
  intro pair fs refusing
  have hrun : ((save "d".toList pair true).run.run fs).1 =
      .ok ⟨"d/id_ed25519".toList, "d/id_ed25519.pub".toList⟩ := by decide +kernel
  have hprivate : fs.holds "d/id_ed25519".toList = false := by decide +kernel
  have hdirectory : fs.isDirectory "d".toList = true := by decide +kernel
  have hheld : fs.find? (fs.place "d/id_ed25519.pub".toList) ≠ none := by decide +kernel
  have hrooted : fs.Rooted := by decide +kernel
  have hdescends : Path.Descends "d".toList := by decide +kernel
  obtain ⟨-, hrefused, hfound, hkeeps, -, -, hsaves⟩ := save_changes fs "d".toList pair
  have hpublic : fs.holds "d/id_ed25519.pub".toList = true :=
    (hfound hdirectory _ (by decide +kernel) hheld).2 (by decide +kernel)
  rcases hsave : (save "d".toList pair true).run.run fs with ⟨result, fs'⟩
  rw [hsave] at hrun
  cases hrun
  exact ⟨hrooted, hdescends, hrefused hprivate hpublic, hkeeps hrooted hdescends, _, fs', rfl,
    hsaves _ _ _ hsave⟩

/-- A public key is in the directory, but the path that is asked for is too long to find it. It is
taken to be missing: the directory is closed and a private key is put beside it before the save
fails. -/
theorem exists_save_ne_keyFileExists :
    let pair : KeyPair := ⟨"ssh-ed25519 AAAA".toList, "private".toList, .ed25519⟩
    let directory := 'd' :: List.replicate 4084 '/'
    let publicPath := publicPathOf (privateKeyPath directory pair.keyType)
    let fs := (FileSystem.empty.put ["d".toList] (.directory 0o755)).put
      ["id_ed25519.pub".toList, "d".toList] (.file 0o644 (Text.utf8 "old".toList))
    let refusing := (save directory pair false).run.run fs
    fs.Rooted ∧ Path.Descends directory ∧ fs.isDirectory directory = true ∧
      fs.find? (fs.place publicPath) = some (.file 0o644 (Text.utf8 "old".toList)) ∧
      fs.stat "d/id_ed25519.pub".toList = .ok (.file 0o644 (Text.utf8 "old".toList)) ∧
      refusing.1 = .error (.io .tooLong) ∧
      refusing.2.find? ["d".toList] = some (.directory 0o700) ∧
      refusing.2.find? ["id_ed25519".toList, "d".toList] =
        some (.file 0o600 (Text.utf8 "private".toList)) := by
  decide +kernel

end SshKeys.KeyFiles
