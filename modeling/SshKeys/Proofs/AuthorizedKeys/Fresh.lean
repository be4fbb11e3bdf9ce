import SshKeys.Proofs.AuthorizedKeys.Listing
import SshKeys.Proofs.KeyFiles.ReadBack

/-!
Adding a key that has just been generated.

The comment of a generated key may be anything, but the line of its entry has
the words of the comment only. So the line of an Ed25519 key is always read
back, and the key is listed with these words as its comment.
-/

namespace SshKeys.AuthorizedKeys

open FileSystem KeyFiles

variable {fs ready : FileSystem} {directory comment old : Text} {check : UInt32}
  {generator : Generator} {point seed : Ed25519.KeyOctets} {pair : KeyPair}

theorem isNamed_publicKey (point : Ed25519.KeyOctets) (comment : Text) :
    (Ed25519.publicKey point comment).IsNamed :=
  ⟨KeyType.ed25519.algorithm_ne_nil,
    fun _ (hc : _ ∈ KeyType.ed25519.algorithm) => KeyType.not_blank_of_mem_algorithm hc,
    embeddedAlgorithm_keyData point⟩

/-- The line of the key makes an entry, and the entry is listed. -/
theorem exists_ofText_line (point : Ed25519.KeyOctets) (comment : Text) :
    ∃ entry, ManagedEntry.ofText (Ed25519.publicKey point comment).line = .ok entry ∧
      entry.fingerprint = PublicKey.fingerprintOf (Ed25519.keyData point) ∧
      managedKeys entry.line = [⟨Ed25519.algorithm,
        PublicKey.fingerprintOf (Ed25519.keyData point),
        Text.join [' '] (markedWords comment.words)⟩] := by
  have hkey : HasKey (Ed25519.publicKey point comment).line [] Ed25519.algorithm
      (Ed25519.keyData point) comment.words :=
    hasKey_keyData (isNamed_publicKey point comment).words_line nofun
  have hentry := ManagedEntry.ofText_eq_ok_iff_hasKey.2 ⟨_, _, _, _, hkey, rfl⟩
  have hlisted := (managedKey?_entryLine_eq_some_iff hkey).2 ⟨_, isReadable_keyData point, rfl⟩
  refine ⟨_, hentry, rfl, ?_⟩
  rw [managedKeys_line hentry, hlisted]
  rfl

theorem exists_generate_ed25519 (hanswer : generator .ed25519 = .pair ⟨point.val, ⟨seed.val⟩⟩)
    (comment : Text) (check : UInt32) :
    ∃ pair, KeyPair.generate generator comment check = .ok pair ∧
      pair.publicKey = (Ed25519.publicKey point comment).line :=
  ⟨_, KeyPair.generate_eq_ok_iff.2 (.inl ⟨_, hanswer,
    KeyPair.ofEd25519_eq_ok_iff.2 ⟨point.property, seed.property, rfl⟩⟩), rfl⟩

theorem run_addNew_of_run_add (hpair : KeyPair.generate generator comment check = .ok pair)
    {outcome : Outcome} {fs' : FileSystem}
    (hadd : (add directory pair.publicKey).run.run fs = (.ok outcome, fs')) :
    (Id.run (addNew generator.pureIn directory comment check)).run.run fs =
      (.ok (pair, outcome), fs') := by
  have hgenerate : KeyPair.generateIn generator.pureIn comment check = (pure (.ok pair) : Id _) :=
    hpair
  rw [addNew, hgenerate, pure_bind]
  show (add directory pair.publicKey >>= fun outcome => pure (pair, outcome)).run.run fs = _
  rw [Change.run_bind_of_ok hadd]
  rfl

/-- A generated Ed25519 key is listed after it has been added, behind the keys that were listed
before, and nothing else is touched. -/
theorem exists_addNew_ed25519 (hanswer : generator .ed25519 = .pair ⟨point.val, ⟨seed.val⟩⟩)
    (hready : Readies fs directory ready) (h : WillBeUsable fs directory ready)
    (hold : fs.contentsAt (fs.place (path directory)) = old.utf8) :
    ∃ pair key outcome fs' keys, KeyPair.generate generator comment check = .ok pair ∧
      PublicKey.parse pair.publicKey = .ok key ∧
      (Id.run (addNew generator.pureIn directory comment check)).run.run fs =
        (.ok (pair, outcome), fs') ∧
      ChangesOnly [fs.place directory, fs.place (path directory), fs.place (backupPath directory)]
        (fs.OnTheWay directory) fs fs' ∧
      list ready directory = .ok keys ∧
      (fs.Rooted → Path.Descends directory → list fs directory = .ok keys) ∧
      (outcome = .added → list fs' directory = .ok (keys ++
        [⟨"ssh-ed25519".toList, key.fingerprint,
          Text.join [' '] (markedWords comment.words)⟩])) ∧
      (outcome = .alreadyPresent → list fs' directory = .ok keys ∧
        key.fingerprint ∈ keys.map (·.fingerprint)) := by
  obtain ⟨pair, hpair, hline⟩ := exists_generate_ed25519 hanswer comment check
  obtain ⟨entry, hentry, hfingerprint, hlisted⟩ := exists_ofText_line point comment
  have hparse := (isNamed_publicKey point comment).parse_line
  rw [← hline] at hentry hparse
  have husable := h.usable hready
  obtain ⟨secured, hsecures, hcases⟩ := run_add hentry hready husable
  -- the directory is made and closed without a change to the file, so the same keys are listed
  have hprepares := prepares_of_secures hready husable hsecures
  have hold' : secured.contentsAt (secured.place (path directory)) = old.utf8 :=
    hprepares.contentsAt_eq.trans hold
  have hsecured : list secured directory = .ok (managedKeys old) :=
    (list_eq_ok_iff_of_locate (husable.of_secures hsecures).locate_path).2
      ⟨(husable.of_secures hsecures).file, old, hold', rfl⟩
  have hkeys : list ready directory = .ok (managedKeys old) := by
    rw [← list_of_secures husable.isDirectory hsecures, hsecured]
  have hbefore (hrooted : fs.Rooted) (hdescends : Path.Descends directory) :
      list fs directory = .ok (managedKeys old) :=
    (list_of_readies hready hrooted hdescends).symm.trans hkeys
  rcases hcases with ⟨hlists, hadd⟩ | ⟨hlists, fs', hadd, happends⟩
  · refine ⟨pair, _, _, secured, managedKeys old, hpair, hparse, run_addNew_of_run_add hpair hadd,
      (hprepares.adds_alreadyPresent entry).others, hkeys, hbefore, (by rintro ⟨⟩),
      fun _ => ⟨hsecured, ?_⟩⟩
    rw [hfingerprint] at hlists
    exact (lists_eq hkeys _).1 hlists
  · refine ⟨pair, _, _, fs', managedKeys old, hpair, hparse, run_addNew_of_run_add hpair hadd,
      (hprepares.adds_added happends).others, hkeys, hbefore, fun _ => ?_, (by rintro ⟨⟩)⟩
    rw [happends.list_eq hold', hlisted]
    rfl

/-- A comment of several lines, beside a backup and no file. -/
theorem exists_addNew_ed25519_newline :
    let generator : Generator := fun _ => .pair ⟨List.replicate 32 0xfe, ⟨List.replicate 32 0x11⟩⟩
    let comment := "a\n\tb\r\nssh-rsa".toList
    let fs := (FileSystem.empty.put ["d".toList] (.directory 0o755)).put
      ["authorized_keys.bak".toList, "d".toList] (.file 0o400 [])
    ∃ pair key outcome fs', PublicKey.parse (KeyPair.publicKey pair) = .ok key ∧
      (Id.run (addNew generator.pureIn "d".toList comment 7)).run.run fs =
        (.ok (pair, outcome), fs') ∧
      (outcome = .added → list fs' "d".toList = .ok [⟨"ssh-ed25519".toList, key.fingerprint,
        "a b ssh-rsa ssh-keypair".toList⟩]) ∧
      outcome ≠ .alreadyPresent := by
  intro generator comment fs
  let point : Ed25519.KeyOctets := ⟨List.replicate 32 0xfe, rfl⟩
  let seed : Ed25519.KeyOctets := ⟨List.replicate 32 0x11, rfl⟩
  have hanswer : generator .ed25519 = .pair ⟨point.val, ⟨seed.val⟩⟩ := rfl
  have hdirectory : fs.isDirectory "d".toList = true := by decide +kernel
  have hrooted : fs.Rooted := by decide +kernel
  have hdescends : Path.Descends "d".toList := by decide +kernel
  have hunblocked : Unblocked fs "d".toList := by decide +kernel
  have hold : fs.contentsAt (fs.place (path "d".toList)) = Text.utf8 [] := by decide +kernel
  have hlist : list fs "d".toList = .ok [] := list_of_find?_eq_none (by decide +kernel)
  have hcomment : Text.join [' '] (markedWords (Text.words comment)) =
      "a b ssh-rsa ssh-keypair".toList := by decide +kernel
  obtain ⟨pair, key, outcome, fs', keys, -, hparse, hrun, -, -, hbefore, hadded, hpresent⟩ :=
    exists_addNew_ed25519 hanswer (.found hdirectory) (.inr ⟨hdescends, hunblocked⟩) hold
  obtain rfl : keys = [] := Except.ok.inj ((hbefore hrooted hdescends).symm.trans hlist)
  rw [hcomment] at hadded
  refine ⟨pair, key, outcome, fs', hparse, hrun, hadded, ?_⟩
  rintro rfl
  nomatch (hpresent rfl).2

/-- A directory may be found where the path of the file is too long. If the path that a command is
given leads up, making the directory may put a directory in the place of the file, and it may bring
keys into view. -/
theorem exists_addNew_ne :
    let generator : Generator := fun _ => .pair ⟨List.replicate 32 0xfe, ⟨List.replicate 32 0x11⟩⟩
    let run (directory : Text) := (Id.run (addNew generator.pureIn directory [] 7)).run.run
    (let directory := 'd' :: List.replicate 4094 '/';
      let fs := FileSystem.empty.put ["d".toList] (.directory 0o755);
      Readies fs directory fs ∧ fs.isDirectory (path directory) = false ∧
        fs.isDirectory (backupPath directory) = false ∧
        (run directory fs).1 = .error (.io .tooLong)) ∧
    (let directory := "authorized_keys/..".toList;
      (∃ ready, Readies .empty directory ready) ∧
        FileSystem.empty.isDirectory (path directory) = false ∧
        FileSystem.empty.isDirectory (backupPath directory) = false ∧
        (run directory .empty).1 = .error (.io .notRegular)) ∧
    (let directory := "m/../d".toList;
      let fs := (FileSystem.empty.put ["d".toList] (.directory 0o755)).put
        ["authorized_keys".toList, "d".toList]
        (.file 0o600 (Text.utf8 (sampleKey ++ " ssh-keypair".toList)));
      (∃ ready, Readies fs directory ready) ∧ list fs directory = .ok [] ∧
        (run directory fs).1.map Prod.snd = .ok .added ∧
        (list (run directory fs).2 directory).map List.length = .ok 2) := by
  intro generator run
  let made (directory : Text) (fs : FileSystem) := ((Change.settleAll directory).run.run fs).2
  have hready {directory : Text} {fs : FileSystem}
      (habsent : fs.holds directory = false)
      (hmade : ((Change.settleAll directory).run.run fs).1 = .ok ())
      (hfound : (made directory fs).isDirectory directory = true) :
      ∃ ready, Readies fs directory ready :=
    ⟨_, .made habsent (Prod.ext hmade rfl) hfound⟩
  refine ⟨⟨.found ?_, ?_, ?_, ?_⟩, ⟨hready ?_ ?_ ?_, ?_, ?_, ?_⟩, hready ?_ ?_ ?_, ?_, ?_⟩
  all_goals decide +kernel

end SshKeys.AuthorizedKeys
