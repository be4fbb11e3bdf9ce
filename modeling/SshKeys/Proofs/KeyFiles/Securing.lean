import SshKeys.Proofs.KeyFiles.Saving

/-!
When a directory has been secured.

Making a directory succeeds only if a directory is there in the end, so of all
that can have the name of the directory it is a regular file alone that securing
takes for it. A file is found to be there, and its mode is set as if it were a
directory (`run_secureDirectory_of_file`). In all other cases a call that succeeds
leaves a directory for its owner only, and no call touches a file.
-/

namespace SshKeys

namespace FileSystem

variable {fs fs' : FileSystem} {path : Text} {l : Location}

/-! ### Directories that have been made -/

theorem isDirectory_of_makeDirectory (h : fs.makeDirectory path = .ok fs') :
    fs'.isDirectory path = true := by
  obtain ⟨l, hreach, -⟩ := bind_eq_ok_iff.1 (makeDirectory.eq_1 fs path ▸ h)
  obtain ⟨hpath, hpass, -⟩ := reach_eq_ok_iff.1 hreach
  obtain ⟨hnone, mode, rfl⟩ := makeDirectory_eq_ok h
  have hgrows : Grows fs (fs.put (fs.place path) (.directory mode)) := .put fun _ => ⟨mode, rfl⟩
  have hthere : (fs.put (fs.place path) (.directory mode)).DirectoryAt (fs.place path) :=
    ⟨mode, find?_put_self ..⟩
  refine isDirectory_iff.2 ⟨fs.place path, locate_eq_ok_iff.2 ⟨hpath, ?_, rfl⟩, hthere⟩
  -- a slash at the end asks for one step more, from the directory itself
  unfold Path.stepsInto
  split
  · exact passable_append.2 ⟨hgrows.passable hpass, hthere, by decide, trivial⟩
  · exact hgrows.passable hpass

namespace Change

theorem isDirectory_of_run_settle (h : (settle path).run.run fs = (.ok (), fs')) :
    fs'.isDirectory path = true := by
  rw [run_settle] at h
  split at h
  · rename_i made hmake
    cases h
    exact isDirectory_of_makeDirectory hmake
  · obtain ⟨hresult, rfl⟩ := Prod.mk.inj h
    split at hresult
    · assumption
    · nomatch hresult

theorem isDirectory_of_run_settleAll (hne : path ≠ [])
    (h : (settleAll path).run.run fs = (.ok (), fs')) : fs'.isDirectory path = true := by
  rw [settleAll, if_neg hne, run_settleUnder_cons] at h
  split at h
  · obtain ⟨-, above, -, hsettle⟩ := run_bind_eq_ok_iff.1 h
    exact isDirectory_of_run_settle hsettle
  · exact isDirectory_of_run_settle h

end Change

/-! ### Files -/

/-- A regular file has this name. -/
def NamesFile (fs : FileSystem) (path : Text) : Prop :=
  ∃ mode contents, fs.stat path = .ok (.file mode contents)

/-- The mode or the contents of a file that was there are different. -/
def Altered (fs fs' : FileSystem) (l : Location) : Prop :=
  ∃ mode contents, fs.find? l = some (.file mode contents) ∧
    fs'.find? l ≠ some (.file mode contents)

theorem holds_of_namesFile (h : NamesFile fs path) : fs.holds path = true := by
  obtain ⟨mode, contents, hstat⟩ := h
  exact holds_iff.2 ⟨_, hstat⟩

theorem ChangesOnly.mem_of_altered {changed : List Location} {made : Location → Prop}
    (h : ChangesOnly changed made fs fs') (haltered : Altered fs fs' l) : l ∈ changed := by
  obtain ⟨mode, contents, hfile, hother⟩ := haltered
  by_contra hmem
  rcases h l hmem with hsame | ⟨hnone, -⟩
  · exact hother (hsame.trans hfile)
  · exact absurd (hnone.symm.trans hfile) (by simp)

/-- What has a name of its own is found under it as it was. -/
theorem ChangesOnly.stat_eq {made : Location → Prop} {node : Node}
    (h : ChangesOnly [l] made fs fs') (hgrows : Grows fs fs') (hne : fs.place path ≠ l)
    (hstat : fs.stat path = .ok node) : fs'.stat path = .ok node := by
  obtain ⟨hlocate, hfind⟩ := stat_eq_ok_iff_place.1 hstat
  refine stat_of_locate (hgrows.locate_eq hlocate) ?_
  rcases h _ (by simpa using hne) with hsame | ⟨hnone, -⟩
  · exact hsame.trans hfind
  · exact absurd (hnone.symm.trans hfind) (by simp)

end FileSystem

namespace KeyFiles

open FileSystem

variable {fs ready : FileSystem} {directory : Text} {l : Location}

/-! ### The ways in which securing ends -/

/-- What is there to be used was no file before. -/
theorem Readies.not_file (h : Readies fs directory ready) (mode : Mode) (contents : Bytes) :
    fs.find? (fs.place directory) ≠ some (.file mode contents) := by
  intro hfile
  have hmakes := h.makes
  obtain ⟨-, old, hthere⟩ := isDirectory_iff_place.1 h.isDirectory
  rw [hmakes.grows.place_eq] at hthere
  rcases hmakes.changesOnly (fs.place directory) List.not_mem_nil with hsame | ⟨hnone, -⟩
  · cases (hsame.symm.trans hthere).symm.trans hfile
  · cases hnone.symm.trans hfile

theorem run_secureDirectory_of_file {mode : Mode} {contents : Bytes}
    (hstat : fs.stat directory = .ok (.file mode contents)) :
    (secureDirectory directory).run.run fs = (.ok (),
      if mode &&& accessBits = directoryMode then fs
      else fs.put (fs.place directory) (.file directoryMode contents)) := by
  rw [run_secureDirectory_eq, if_pos (holds_of_namesFile ⟨mode, contents, hstat⟩),
    run_close_of_stat hstat]
  rfl

/-- Where nothing has the name, the directory is made, or nothing but directories on its way is. -/
theorem readies_or_error_of_absent (h : fs.holds directory = false) :
    (∃ ready, Readies fs directory ready) ∨
      ∃ e stopped, Makes (fs.OnTheWay directory) fs stopped ∧
        (secureDirectory directory).run.run fs = (.error e, stopped) := by
  have hmakes := Change.makes_settleAll directory fs
  have hrun := run_secureDirectory_eq directory fs
  rw [if_neg (by simp [h])] at hrun
  rcases hsettle : (Change.settleAll directory).run.run fs with ⟨e | ⟨⟩, made⟩
  · rw [hsettle] at hmakes
    rw [Change.run_bind_of_error hsettle] at hrun
    exact .inr ⟨e, made, hmakes, hrun⟩
  by_cases hne : directory = []
  -- the empty path makes nothing, and it names nothing
  · subst hne
    obtain rfl : fs = made := (Prod.mk.inj hsettle).2
    have hlook : (Change.look (·.stat [])).run.run fs = (.error (.io .notFound), fs) := by
      rw [Change.run_look]
      rfl
    rw [Change.run_bind_of_ok hsettle, close, Change.run_bind_of_error hlook] at hrun
    exact .inr ⟨.io .notFound, fs, .refl _ fs, hrun⟩
  · exact .inl ⟨made, .made h hsettle (Change.isDirectory_of_run_settleAll hne hsettle)⟩

theorem run_secureDirectory_cases (directory : Text) (fs : FileSystem) :
    NamesFile fs directory ∨
    (∃ ready secured, Readies fs directory ready ∧ Secures directory ready secured ∧
      (secureDirectory directory).run.run fs = (.ok (), secured)) ∨
    ∃ e stopped, Makes (fs.OnTheWay directory) fs stopped ∧
      (secureDirectory directory).run.run fs = (.error e, stopped) := by
  by_cases hfile : NamesFile fs directory
  · exact .inl hfile
  have hends : (∃ ready, Readies fs directory ready) ∨
      ∃ e stopped, Makes (fs.OnTheWay directory) fs stopped ∧
        (secureDirectory directory).run.run fs = (.error e, stopped) := by
    rcases hstat : fs.stat directory with fault | ⟨mode, contents⟩ | mode
    · exact readies_or_error_of_absent (by rw [holds, hstat]; rfl)
    · exact absurd ⟨mode, contents, hstat⟩ hfile
    · exact .inl ⟨fs, .found (by rw [isDirectory, hstat])⟩
  rcases hends with ⟨ready, hready⟩ | hfails
  · obtain ⟨secured, hrun, hsecures⟩ := run_secureDirectory hready
    exact .inr (.inl ⟨ready, secured, hready, hsecures, hrun⟩)
  · exact .inr (.inr hfails)

/-! ### What has been secured -/

theorem run_secureDirectory_eq_ok_iff :
    ((secureDirectory directory).run.run fs).1 = .ok () ↔
      NamesFile fs directory ∨ ∃ ready, Readies fs directory ready := by
  constructor
  · intro hok
    rcases run_secureDirectory_cases directory fs with
      hfile | ⟨ready, secured, hready, -⟩ | ⟨e, stopped, -, hrun⟩
    · exact .inl hfile
    · exact .inr ⟨ready, hready⟩
    · rw [hrun] at hok
      nomatch hok
  · rintro (⟨mode, contents, hstat⟩ | ⟨ready, hready⟩)
    · rw [run_secureDirectory_of_file hstat]
    · obtain ⟨secured, hrun, -⟩ := run_secureDirectory hready
      rw [hrun]

/-- A directory that only its owner can use. -/
def IsPrivate (fs : FileSystem) (directory : Text) : Prop :=
  ∃ mode, fs.stat directory = .ok (.directory mode) ∧ mode &&& 0o777 = 0o700

/-- A file stays a file. -/
theorem not_isPrivate_of_namesFile (h : NamesFile fs directory) :
    ¬IsPrivate ((secureDirectory directory).run.run fs).2 directory := by
  obtain ⟨mode, contents, hstat⟩ := h
  obtain ⟨hlocate, hfind⟩ := stat_eq_ok_iff_place.1 hstat
  have hgrows : Grows fs (fs.put (fs.place directory) (.file directoryMode contents)) :=
    grows_put_withMode hfind directoryMode
  rw [run_secureDirectory_of_file hstat]
  rintro ⟨closed, hclosed, -⟩
  split at hclosed
  · cases hstat.symm.trans hclosed
  · cases (stat_of_locate (hgrows.locate_eq hlocate) (find?_put_self ..)).symm.trans hclosed

theorem isPrivate_iff (hok : ((secureDirectory directory).run.run fs).1 = .ok ()) :
    IsPrivate ((secureDirectory directory).run.run fs).2 directory ↔ ¬NamesFile fs directory := by
  constructor
  · exact fun hprivate hfile => not_isPrivate_of_namesFile hfile hprivate
  · intro hfile
    obtain ⟨ready, hready⟩ := (run_secureDirectory_eq_ok_iff.1 hok).resolve_left hfile
    obtain ⟨secured, hrun, hsecures⟩ := run_secureDirectory hready
    rw [hrun]
    exact hsecures.stat

/-- A file is only altered by being taken for the directory. -/
theorem altered_iff :
    Altered fs ((secureDirectory directory).run.run fs).2 l ↔
      l = fs.place directory ∧ ∃ mode contents,
        fs.stat directory = .ok (.file mode contents) ∧ mode &&& 0o777 ≠ 0o700 := by
  constructor
  · intro haltered
    have hchanges := (securesAtMost_secureDirectory directory fs).changesOnly
    obtain rfl : l = fs.place directory := List.mem_singleton.1 (hchanges.mem_of_altered haltered)
    refine ⟨rfl, ?_⟩
    rcases run_secureDirectory_cases directory fs with
      ⟨mode, contents, hstat⟩ | ⟨ready, secured, hready, -⟩ | ⟨e, stopped, hmakes, hrun⟩
    · refine ⟨mode, contents, hstat, fun (hmode : mode &&& accessBits = directoryMode) => ?_⟩
      rw [run_secureDirectory_of_file hstat, if_pos hmode] at haltered
      obtain ⟨_, _, hfile, hother⟩ := haltered
      exact hother hfile
    · obtain ⟨mode, contents, hfile, -⟩ := haltered
      exact absurd hfile (hready.not_file mode contents)
    · rw [hrun] at haltered
      exact absurd (hmakes.changesOnly.mem_of_altered haltered) List.not_mem_nil
  · rintro ⟨rfl, mode, contents, hstat, hmode⟩
    obtain ⟨-, hfind⟩ := stat_eq_ok_iff_place.1 hstat
    have hopen : mode &&& accessBits ≠ directoryMode := hmode
    refine ⟨mode, contents, hfind, ?_⟩
    rw [run_secureDirectory_of_file hstat, if_neg hopen, find?_put_self]
    intro hsame
    obtain ⟨rfl, -⟩ := Node.file.inj (Option.some.inj hsame)
    exact hmode (by decide)

theorem keepsFiles_secureDirectory (directory : Text) (fs : FileSystem) :
    KeepsFiles fs ((secureDirectory directory).run.run fs).2 := by
  rcases run_secureDirectory_cases directory fs with
    ⟨mode, contents, hstat⟩ | ⟨ready, secured, hready, hsecures, hrun⟩ | ⟨e, stopped, hmakes, hrun⟩
  · obtain ⟨-, hfind⟩ := stat_eq_ok_iff_place.1 hstat
    rw [run_secureDirectory_of_file hstat]
    split
    · exact .refl fs
    · exact .put_withMode hfind directoryMode
  · rw [hrun]
    exact (KeepsFiles.of_makes hready.makes).trans (hsecures.keepsFiles hready.isDirectory)
  · rw [hrun]
    exact .of_makes hmakes

/-- Securing succeeds if the directory is there or can be made, and then it is for its owner only,
and also if a file has its name, which stays a file. All that has another name stays as it was, and
nothing comes about but directories on the way. Only the file that is taken for the directory gets
another mode, and no file gets other contents. -/
theorem secureDirectory_closes (fs : FileSystem) (directory : Text) :
    let ran := (secureDirectory directory).run.run fs
    (ran.1 = .ok () ↔ NamesFile fs directory ∨ ∃ ready, Readies fs directory ready) ∧
    (ran.1 = .ok () → (IsPrivate ran.2 directory ↔ ¬NamesFile fs directory)) ∧
    ChangesOnly [fs.place directory] (fs.OnTheWay directory) fs ran.2 ∧
    (∀ path node, fs.place path ≠ fs.place directory → fs.stat path = .ok node →
      ran.2.stat path = .ok node) ∧
    (∀ l, Altered fs ran.2 l ↔ l = fs.place directory ∧ ∃ mode contents,
      fs.stat directory = .ok (.file mode contents) ∧ mode &&& 0o777 ≠ 0o700) ∧
    KeepsFiles fs ran.2 := by
  intro ran
  have hmost := securesAtMost_secureDirectory directory fs
  exact ⟨run_secureDirectory_eq_ok_iff, isPrivate_iff, hmost.changesOnly,
    fun _ _ hne hstat => hmost.changesOnly.stat_eq hmost.grows hne hstat,
    fun _ => altered_iff, keepsFiles_secureDirectory directory fs⟩

/-- A directory is made below another one that hands down its group, next to a file that all can
write. -/
theorem secureDirectory_closes_below :
    let fs := (FileSystem.empty.put ["g".toList] (.directory 0o3777)).put
      ["f".toList, "g".toList] (.file 0o666 [1, 2, 3])
    let ran := (secureDirectory "g/x/../y".toList).run.run fs
    ran.1 = .ok () ∧ IsPrivate ran.2 "g/x/../y".toList ∧
      ran.2.stat "g/f".toList = .ok (.file 0o666 [1, 2, 3]) ∧
      ran.2.stat "g".toList = .ok (.directory 0o3777) ∧
      ChangesOnly [["y".toList, "g".toList]] (fs.OnTheWay "g/x/../y".toList) fs ran.2 := by
  intro fs ran
  have hok : ran.1 = .ok () := by decide +kernel
  have habsent : fs.holds "g/x/../y".toList = false := by decide +kernel
  obtain ⟨-, hprivate, hchanges, hkept, -⟩ := secureDirectory_closes fs "g/x/../y".toList
  refine ⟨hok, (hprivate hok).2 fun hfile => ?_, hkept _ _ (by decide +kernel) (by decide +kernel),
    hkept _ _ (by decide +kernel) (by decide +kernel), hchanges⟩
  rw [holds_of_namesFile hfile] at habsent
  nomatch habsent

/-- A file has the name, and is made executable for its owner as if it were the directory. -/
theorem exists_secureDirectory_file :
    let fs := FileSystem.empty.put ["d".toList] (.file 0o644 (Text.utf8 "x".toList))
    let ran := (secureDirectory "d".toList).run.run fs
    ran.1 = .ok () ∧ ran.2.isDirectory "d".toList = false ∧
      fs.find? ["d".toList] = some (.file 0o644 (Text.utf8 "x".toList)) ∧
      ran.2.find? ["d".toList] = some (.file 0o700 (Text.utf8 "x".toList)) := by
  decide +kernel

end KeyFiles

end SshKeys
