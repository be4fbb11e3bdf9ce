import Mathlib.Data.List.Nodup
import SshKeys.Proofs.AuthorizedKeys.Adding
import SshKeys.Proofs.AuthorizedKeys.Lines

/-!
What is listed after keys have been added.

A file is listed line by line, so a line at its end adds what is listed of that
line alone and leaves the rest as it was (`exists_utf8_appended`). A key is only
added where its fingerprint is not listed, so no fingerprint is listed twice as
long as the line of a key is listed under the fingerprint that was looked for.
-/

namespace SshKeys.AuthorizedKeys

open FileSystem KeyFiles

/-! ### Lines at the end -/

/-- A line at the end of a text is listed behind the others. -/
theorem exists_utf8_appended (old line : Text) :
    ∃ new : Text, old.utf8 ++ appended old.utf8 line = new.utf8 ∧
      managedKeys new = managedKeys old ++ managedKeys line := by
  have hnewline : Text.utf8 ['\n'] = [10] := by decide
  rw [appended_eq]
  by_cases hends : old.utf8 = [] ∨ old.utf8.getLast? = some 10
  · rw [if_pos hends]
    refine ⟨old ++ (line ++ ['\n']), by simp [hnewline], ?_⟩
    rcases hends with hnil | hlast
    · obtain rfl : old = [] := Text.utf8_inj.1 hnil
      exact managedKeys_concat line
    · obtain ⟨front, rfl⟩ := List.getLast?_eq_some_iff.1 (Text.getLast?_utf8_eq_iff.1 hlast)
      rw [managedKeys_concat, List.append_assoc, List.singleton_append, managedKeys_append_cons,
        managedKeys_concat]
  · rw [if_neg hends]
    refine ⟨old ++ (['\n'] ++ (line ++ ['\n'])), by
      simp only [Text.utf8_append, hnewline, List.append_assoc], ?_⟩
    rw [List.singleton_append, managedKeys_append_cons, managedKeys_concat]

/-! ### Files -/

variable {fs fs' : FileSystem} {directory text : Text} {keys : List ListedKey}

/-- Where the path leads to a place, it is the octets there that are listed. -/
theorem list_eq_ok_iff_of_locate {l : Location} (hlocate : fs.locate (path directory) = .ok l) :
    list fs directory = .ok keys ↔
      ¬fs.DirectoryAt l ∧ ∃ text : Text, fs.contentsAt l = text.utf8 ∧ keys = managedKeys text := by
  rw [list_eq_ok_iff, holds, stat, hlocate, ok_bind, contentsAt, DirectoryAt]
  rcases hfind : fs.find? l with _ | ⟨mode, contents⟩ | mode
  · constructor
    · rintro (⟨-, rfl⟩ | ⟨mode, text, hstat, -⟩)
      · exact ⟨by simp, [], rfl, rfl⟩
      · cases hstat
    · rintro ⟨-, text, htext, rfl⟩
      obtain rfl : [] = text := Text.utf8_inj.1 htext
      exact .inl ⟨rfl, rfl⟩
  · constructor
    · rintro (⟨hholds, -⟩ | ⟨mode, text, hstat, rfl⟩)
      · cases hholds
      · cases hstat
        exact ⟨by simp, text, rfl, rfl⟩
    · rintro ⟨-, text, rfl, rfl⟩
      exact .inr ⟨mode, text, rfl, rfl⟩
  · constructor
    · rintro (⟨hholds, -⟩ | ⟨mode, text, hstat, -⟩)
      · cases hholds
      · cases hstat
    · rintro ⟨hdirectory, -⟩
      exact absurd ⟨mode, rfl⟩ hdirectory

/-- Where nothing is in the place of the file, nothing is listed. -/
theorem list_of_find?_eq_none (h : fs.find? (fs.place (path directory)) = none) :
    list fs directory = .ok [] := by
  refine list_eq_ok_iff.2 (.inl ⟨?_, rfl⟩)
  by_contra hholds
  obtain ⟨node, hstat⟩ := holds_iff.1 (eq_true_of_ne_false hholds)
  nomatch h.symm.trans (stat_eq_ok_iff_place.1 hstat).2

/-- If the path of the directory leads down, no keys come into view when it is made. -/
theorem list_of_readies {ready : FileSystem} (hready : Readies fs directory ready)
    (hrooted : fs.Rooted) (hdescends : Path.Descends directory) :
    list ready directory = list fs directory := by
  rcases hready.eq_or_empty hrooted hdescends with rfl | hempty
  · rfl
  · have hnone : fs.find? (fs.place (path directory)) = none := by
      rw [place_path]
      exact hempty _
    have hnone' : ready.find? (ready.place (path directory)) = none := by
      rw [hready.makes.grows.place_eq, place_path, hready.makes.find?_below hdescends]
      exact hempty _
    rw [list_of_find?_eq_none hnone, list_of_find?_eq_none hnone']

variable {line : Text}

/-- A line that has been added is listed behind the others. -/
theorem Appends.list_eq {old : Text} (h : Appends directory line fs fs')
    (hold : fs.contentsAt (fs.place (path directory)) = old.utf8) :
    list fs' directory = .ok (managedKeys old ++ managedKeys line) := by
  obtain ⟨new, hnew, hkeys⟩ := exists_utf8_appended old line
  have hfile := h.file
  rw [hold, hnew] at hfile
  exact list_eq_ok_iff.2 (.inr ⟨_, new, hfile, hkeys.symm⟩)

/-! ### One key -/

theorem lists_eq (h : list fs directory = .ok keys) (fingerprint : Text) :
    lists fs directory fingerprint = true ↔ fingerprint ∈ keys.map (·.fingerprint) := by
  rw [lists, h, List.any_eq_true, List.mem_map]
  simp only [beq_iff_eq]

theorem managedKeys_line {entry : ManagedEntry} (h : ManagedEntry.ofText text = .ok entry) :
    managedKeys entry.line = (managedKey? entry.line).toList := by
  obtain ⟨before, keyType, data, comment, hkey, rfl⟩ := ManagedEntry.ofText_eq_ok_iff_hasKey.1 h
  exact managedKeys_of_not_mem hkey.newline_not_mem_line

/-- Whether it succeeds or not, adding to a directory secures it at most, and appends a line at
most. -/
theorem state_add_cases (hdirectory : fs.isDirectory directory = true) (text : Text) :
    ((add directory text).run.run fs).2 = fs ∨
      ∃ entry secured, ManagedEntry.ofText text = .ok entry ∧ Secures directory fs secured ∧
        (((add directory text).run.run fs).2 = secured ∨
          lists secured directory entry.fingerprint = false ∧
            secured.locate (path directory) = .ok (secured.place (path directory)) ∧
            Appends directory entry.line secured ((add directory text).run.run fs).2) := by
  rw [run_add_eq]
  rcases ManagedEntry.ofText text with e | entry
  · exact .inl rfl
  obtain ⟨secured, hrun, hsecures⟩ := run_secureDirectory (.found hdirectory)
  refine .inr ⟨entry, secured, rfl, hsecures, ?_⟩
  simp only [Change.run_bind_of_ok hrun, run_addEntry_eq]
  split
  · exact .inl rfl
  rename_i hlists
  rcases run_addLine_cases directory entry.line secured with
    ⟨e, hline⟩ | ⟨fs', hline, hlocate, -, happends⟩
  · rw [Change.run_bind_of_error hline]
    exact .inl rfl
  · rw [Change.run_bind_of_ok hline]
    exact .inr ⟨eq_false_of_ne_true hlists, hlocate, happends⟩

/-- The step: at most one key is listed in addition, and only if its fingerprint was looked for in
vain. -/
theorem exists_list_add (hdirectory : fs.isDirectory directory = true)
    (hlist : list fs directory = .ok keys) (text : Text) :
    ((add directory text).run.run fs).2.isDirectory directory = true ∧
      ∃ found : Option ListedKey,
        list ((add directory text).run.run fs).2 directory = .ok (keys ++ found.toList) ∧
        ∀ key ∈ found, ∃ entry, ManagedEntry.ofText text = .ok entry ∧
          managedKey? entry.line = some key ∧
          entry.fingerprint ∉ keys.map (·.fingerprint) := by
  rcases state_add_cases hdirectory text with hsame | ⟨entry, secured, hentry, hsecures, hcases⟩
  · rw [hsame]
    exact ⟨hdirectory, none, by rw [hlist, Option.toList_none, List.append_nil], nofun⟩
  have hsecured : list secured directory = .ok keys := by
    rw [list_of_secures hdirectory hsecures, hlist]
  rcases hcases with hsame | ⟨hlists, hlocate, happends⟩
  · rw [hsame]
    exact ⟨hsecures.isDirectory, none, by rw [hsecured, Option.toList_none, List.append_nil], nofun⟩
  · obtain ⟨-, old, hold, rfl⟩ := (list_eq_ok_iff_of_locate hlocate).1 hsecured
    refine ⟨happends.isDirectory hsecures.isDirectory, managedKey? entry.line, ?_, ?_⟩
    · rw [happends.list_eq hold, managedKeys_line hentry]
    · intro key hkey
      refine ⟨entry, hentry, hkey, fun hmem => ?_⟩
      rw [(lists_eq hsecured _).2 hmem] at hlists
      nomatch hlists

/-! ### Many keys -/

/-- Adds keys one after the other, whatever becomes of each. -/
def addAll (directory : Text) (texts : List Text) (fs : FileSystem) : FileSystem :=
  texts.foldl (fun fs text => ((add directory text).run.run fs).2) fs

/-- A key of this data is listed under the digest of the data as it was given, if it is listed. -/
def DigestsAsGiven (data : Bytes) : Prop :=
  ∀ algorithm fields, readKey? data = some (algorithm, fields) →
    PublicKey.fingerprintOf (canonicalData algorithm fields) = PublicKey.fingerprintOf data

/-- That is so of all data in which no length of a point is overstated. -/
theorem digestsAsGiven_of_not_overstates {before comment : List Text} {keyType : Text}
    {data : Bytes} (h : HasKey text before keyType data comment)
    (hpoint : ∀ octets, data = Wire.string keyType.utf8 ++ octets → ¬Scan.Overstates octets) :
    DigestsAsGiven data := by
  intro algorithm fields hread
  obtain rfl : algorithm = keyType := eq_of_readKey? hread h.embedded h.isKeyWords.keyType
  rw [canonicalData_eq hread h.embedded hpoint]

/-- Then the key is listed under the fingerprint that is looked for when it is added. -/
theorem fingerprint_eq_of_managedKey? {entry : ManagedEntry} {key : ListedKey}
    (hentry : ManagedEntry.ofText text = .ok entry) (hkey : managedKey? entry.line = some key)
    (hdigests : ∀ before keyType data comment, HasKey text before keyType data comment →
      DigestsAsGiven data) : key.fingerprint = entry.fingerprint := by
  obtain ⟨before, keyType, data, comment, h, rfl⟩ :=
    ManagedEntry.ofText_eq_ok_iff_hasKey.1 hentry
  obtain ⟨fields, hreadable, rfl⟩ := (managedKey?_entryLine_eq_some_iff h).1 hkey
  exact hdigests before keyType data comment h keyType fields hreadable.read

/-- Whatever is added, what was listed before stays in front. No fingerprint is listed twice, if
keys are listed under the digests of their data as it was given. -/
theorem exists_list_addAll (hdirectory : fs.isDirectory directory = true)
    (hlist : list fs directory = .ok keys) (texts : List Text) :
    ∃ added, list (addAll directory texts fs) directory = .ok (keys ++ added) ∧
      ((∀ text ∈ texts, ∀ before keyType data comment, HasKey text before keyType data comment →
          DigestsAsGiven data) →
        (keys.map (·.fingerprint)).Nodup → ((keys ++ added).map (·.fingerprint)).Nodup) := by
  induction texts generalizing fs keys with
  | nil =>
      refine ⟨[], ?_, fun _ hkeys => ?_⟩ <;> rwa [List.append_nil]
  | cons text texts ih =>
      obtain ⟨hdirectory', found, hlist', hfound⟩ := exists_list_add hdirectory hlist text
      obtain ⟨added, hadded, hnodup⟩ := ih hdirectory' hlist'
      refine ⟨found.toList ++ added, ?_, fun hdigests hkeys => ?_⟩
      · rw [← List.append_assoc]
        exact hadded
      rw [← List.append_assoc]
      refine hnodup (fun text htext => hdigests text (List.mem_cons_of_mem _ htext)) ?_
      cases found with
      | none => rwa [Option.toList_none, List.append_nil]
      | some key =>
          obtain ⟨entry, hentry, hkey, hnew⟩ := hfound key rfl
          have hfingerprint := fingerprint_eq_of_managedKey? hentry hkey
            (hdigests text List.mem_cons_self)
          rw [← hfingerprint] at hnew
          rw [Option.toList_some, List.map_append, List.map_singleton, ← List.concat_eq_append]
          exact List.Nodup.concat hnew hkeys

theorem digestsAsGiven_keyData (point : Ed25519.KeyOctets) :
    DigestsAsGiven (Ed25519.keyData point) := by
  intro algorithm fields hread
  cases hread.symm.trans (readKey?_keyData point)
  rfl

theorem eq_keyData_of_hasKey_sampleKey {before comment : List Text} {keyType : Text}
    {data : Bytes} (h : HasKey sampleKey before keyType data comment) :
    data = Ed25519.keyData samplePoint := by
  have hwords : sampleKey.words = [sampleType, sampleData] := by decide +kernel
  have hsplit := hwords.symm.trans h.isKeyWords.words
  have hlength := congrArg List.length hsplit
  simp only [List.length_append, List.length_cons, List.length_nil] at hlength
  obtain rfl : before = [] := List.length_eq_zero_iff.1 (by omega)
  have hdata := (List.cons.inj (List.cons.inj hsplit).2).1
  rw [← encodeText_samplePoint] at hdata
  exact (Base64.encodeText_inj.1 hdata).symm

/-- The same key twice, to a directory that has no file yet. -/
theorem exists_list_addAll_twice :
    let fs := FileSystem.empty.put ["d".toList] (.directory 0o755)
    ∃ added,
      list (addAll "d".toList [sampleKey, sampleKey] fs) "d".toList =
        .ok added ∧ (added.map (·.fingerprint)).Nodup := by
  intro fs
  have hdirectory : fs.isDirectory "d".toList = true := by decide +kernel
  have hlist : list fs "d".toList = .ok [] :=
    list_eq_ok_iff.2 (.inl ⟨by decide +kernel, rfl⟩)
  obtain ⟨added, hadded, hnodup⟩ := exists_list_addAll hdirectory hlist [sampleKey, sampleKey]
  refine ⟨added, hadded, hnodup ?_ List.nodup_nil⟩
  intro text htext before keyType data comment h
  obtain rfl : text = sampleKey := by simpa using htext
  rw [eq_keyData_of_hasKey_sampleKey h]
  exact digestsAsGiven_keyData samplePoint

end SshKeys.AuthorizedKeys
