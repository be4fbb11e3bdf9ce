import SshKeys.Proofs.AuthorizedKeys.Listing

/-!
Adding a key again.

The second time a key is looked for among what is listed. It is found there if
it was found the first time, or if the line that was then appended can be read
back. Nothing makes sure of the latter when the line is written, so
`add_again_iff` needs it as a condition.
-/

namespace SshKeys.AuthorizedKeys

open FileSystem KeyFiles

variable {fs fs' : FileSystem} {directory text : Text} {outcome : Outcome}

/-- What there is to a key that has been added: the directory is closed, and in that state the key
was listed or its line was appended. -/
theorem exists_of_run_add (h : (add directory text).run.run fs = (.ok outcome, fs')) :
    ∃ entry secured, ManagedEntry.ofText text = .ok entry ∧ Grows fs secured ∧
      ChangesOnly [fs.place directory] (fs.OnTheWay directory) fs secured ∧
      IsClosed secured directory ∧
      (outcome = .alreadyPresent ∧ lists secured directory entry.fingerprint = true ∧
          fs' = secured ∨
        outcome = .added ∧ lists secured directory entry.fingerprint = false ∧
          secured.locate (path directory) = .ok (secured.place (path directory)) ∧
          ¬secured.DirectoryAt (secured.place (path directory)) ∧
          Appends directory entry.line secured fs') := by
  rw [run_add_eq] at h
  rcases hentry : ManagedEntry.ofText text with e | entry
  · rw [hentry] at h
    nomatch h
  simp only [hentry] at h
  obtain ⟨⟨⟩, secured, hrun, hadd⟩ := Change.run_bind_eq_ok_iff.1 h
  have hsecures := securesAtMost_secureDirectory directory fs
  rw [hrun] at hsecures
  refine ⟨entry, secured, rfl, hsecures.grows, hsecures.changesOnly, hsecures.isClosed rfl, ?_⟩
  rw [run_addEntry_eq] at hadd
  split at hadd
  · rename_i hlists
    cases hadd
    exact .inl ⟨rfl, hlists, rfl⟩
  · rename_i hlists
    rcases run_addLine_cases directory entry.line secured with
      ⟨e, hline⟩ | ⟨fs', hline, happends⟩
    · rw [Change.run_bind_of_error hline] at hadd
      nomatch hadd
    · rw [Change.run_bind_of_ok hline] at hadd
      cases hadd
      exact .inr ⟨rfl, eq_false_of_ne_true hlists, happends⟩

/-- Of a directory that is closed only the listing matters. -/
theorem run_add_of_isClosed {entry : ManagedEntry} (hclosed : IsClosed fs directory)
    (hentry : ManagedEntry.ofText text = .ok entry) :
    (add directory text).run.run fs = (.ok .alreadyPresent, fs) ↔
      lists fs directory entry.fingerprint = true := by
  rw [run_add_eq, hentry]
  show (secureDirectory directory >>= fun _ => addEntry directory entry).run.run fs = _ ↔ _
  rw [Change.run_bind_of_ok hclosed.run_secureDirectory, run_addEntry_eq]
  split
  · rename_i hlists
    exact ⟨fun _ => hlists, fun _ => rfl⟩
  · rename_i hlists
    constructor
    · intro h
      obtain ⟨_, _, -, hreturn⟩ := Change.run_bind_eq_ok_iff.1 h
      cases hreturn
    · intro h
      exact absurd h hlists

theorem lists_append {keys more : List ListedKey} {fingerprint : Text}
    (hkeys : list fs directory = .ok keys) (hmore : list fs' directory = .ok (keys ++ more))
    (hlists : lists fs directory fingerprint = false) :
    lists fs' directory fingerprint = true ↔ ∃ key ∈ more, key.fingerprint = fingerprint := by
  have hnot : fingerprint ∉ keys.map (·.fingerprint) := fun hmem => by
    rw [(lists_eq hkeys _).2 hmem] at hlists
    nomatch hlists
  rw [lists_eq hmore, List.map_append, List.mem_append, or_iff_right hnot, List.mem_map]

variable {text' keyType : Text} {data : Bytes} {before comment : List Text} {old : Text}
  {entry' : ManagedEntry}

/-- A key is known the second time if it was known the first time, or if its line is read back
under the fingerprint of the key data. -/
theorem add_again_iff (hkey : HasKey text before keyType data comment)
    (hentry : ManagedEntry.ofText text' = .ok entry')
    (hfingerprint : entry'.fingerprint = PublicKey.fingerprintOf data)
    (hold : fs.contentsAt (fs.place (path directory)) = old.utf8)
    (hadd : (add directory text).run.run fs = (.ok outcome, fs')) :
    (add directory text').run.run fs' = (.ok .alreadyPresent, fs') ↔
      outcome = .alreadyPresent ∨
        ∃ fields, IsReadable (entryOptions before) keyType data fields ∧
          PublicKey.fingerprintOf (canonicalData keyType fields) =
            PublicKey.fingerprintOf data := by
  obtain ⟨entry, secured, hfirst, hgrows, hchanges, hclosed, hcases⟩ := exists_of_run_add hadd
  obtain rfl : entry = _ := Except.ok.inj (hfirst.symm.trans
    (ManagedEntry.ofText_eq_ok_iff_hasKey.2 ⟨_, _, _, _, hkey, rfl⟩))
  rcases hcases with ⟨rfl, hlists, rfl⟩ | ⟨rfl, hlists, hlocate, hfile, happends⟩
  · rw [run_add_of_isClosed hclosed hentry, hfingerprint]
    exact ⟨fun _ => .inl rfl, fun _ => hlists⟩
  have hclosed' : IsClosed fs' directory :=
    hclosed.imp fun node h => ⟨happends.stat_directory h.1, h.2⟩
  have hold' : secured.contentsAt (secured.place (path directory)) = old.utf8 := by
    rw [hgrows.place_eq, hchanges.contentsAt_eq (by simp [place_path_ne]), hold]
  have hlist : list secured directory = .ok (managedKeys old) :=
    (list_eq_ok_iff_of_locate hlocate).2 ⟨hfile, old, hold', rfl⟩
  rw [run_add_of_isClosed hclosed' hentry, hfingerprint,
    lists_append hlist (happends.list_eq hold') hlists, managedKeys_line hfirst]
  simp only [Option.mem_toList, managedKey?_entryLine_eq_some_iff hkey, reduceCtorEq, false_or]
  constructor
  · rintro ⟨key, ⟨fields, hreadable, rfl⟩, hdigest⟩
    exact ⟨fields, hreadable, hdigest⟩
  · rintro ⟨fields, hreadable, hdigest⟩
    exact ⟨_, ⟨fields, hreadable, rfl⟩, hdigest⟩

/-- The same key with a comment, added to a directory that was empty before the first one. -/
theorem add_again_iff_comment :
    let fs := FileSystem.empty.put ["d".toList] (.directory 0o755)
    ∃ outcome fs', (add "d".toList sampleKey).run.run fs = (.ok outcome, fs') ∧
      (add "d".toList (sampleKey ++ " again".toList)).run.run fs' =
        (.ok .alreadyPresent, fs') := by
  intro fs
  have hwords : sampleKey.words = [sampleType, sampleData] := by decide +kernel
  have hwords' : (sampleKey ++ " again".toList).words =
      [sampleType, sampleData, "again".toList] := by decide +kernel
  rw [← encodeText_samplePoint] at hwords hwords'
  have hkey : HasKey sampleKey [] sampleType (Ed25519.keyData samplePoint) [] :=
    hasKey_keyData hwords nofun
  have hkey' : HasKey (sampleKey ++ " again".toList) [] sampleType
      (Ed25519.keyData samplePoint) ["again".toList] := hasKey_keyData hwords' nofun
  have hentry := ManagedEntry.ofText_eq_ok_iff_hasKey.2 ⟨_, _, _, _, hkey, rfl⟩
  have hentry' := ManagedEntry.ofText_eq_ok_iff_hasKey.2 ⟨_, _, _, _, hkey', rfl⟩
  have husable : Usable fs "d".toList := by decide +kernel
  have hold : fs.contentsAt (fs.place (path "d".toList)) = Text.utf8 [] := by decide +kernel
  obtain ⟨outcome, fs', hadd⟩ :
      ∃ outcome fs', (add "d".toList sampleKey).run.run fs = (.ok outcome, fs') := by
    obtain ⟨_, -, ⟨-, hadd⟩ | ⟨-, _, hadd, -⟩⟩ :=
      run_add hentry (.found husable.isDirectory) husable
    · exact ⟨_, _, hadd⟩
    · exact ⟨_, _, hadd⟩
  exact ⟨outcome, fs', hadd, (add_again_iff hkey hentry' rfl hold hadd).2
    (.inr ⟨_, isReadable_keyData samplePoint, rfl⟩)⟩

/-- Options that begin with a hash sign make the line a comment, a key of a type that no reader
knows makes it no entry, and a point whose length is overstated is read as another key. -/
theorem exists_add_again_added :
    let first (text : Text) := (add "d".toList text).run.run .empty
    let second (text : Text) := (add "d".toList text).run.run (first text).2
    let hash := "#,restrict ".toList ++ sampleKey
    let unknown := "ssh-x AAAABXNzaC14".toList
    let overstated := ("ssh-ed25519 AAAAC3NzaC1lZDI1NTE5AAAAMg" ++
      "ECAwQFBgcICQoLDA0ODxAREhMUFRYXGBkaGxwdHh8g").toList
    ((first hash).1 = .ok .added ∧ (second hash).1 = .ok .added) ∧
      ((first unknown).1 = .ok .added ∧ (second unknown).1 = .ok .added) ∧
      ((first overstated).1 = .ok .added ∧ (second overstated).1 = .ok .added) := by
  decide +kernel

end SshKeys.AuthorizedKeys
