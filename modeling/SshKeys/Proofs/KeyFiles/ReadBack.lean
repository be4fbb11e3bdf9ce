import SshKeys.Proofs.AuthorizedKeys.Managed
import SshKeys.Proofs.KeyFiles.Writing
import SshKeys.Proofs.KeyPair

/-!
What is read back of a saved pair.

A comment is written as it is, and with a newline in it the file of the public
key has more lines than one. The first of them still is a line of the same key,
with the beginning of the comment for its comment (`exists_splitOn_line_eq`). What
a reader finds in such a line depends on its words alone, and so every reader
finds the key data that was written.
-/

namespace SshKeys

namespace PublicKey

/-! ### Lines of a key -/

/-- The key data names the algorithm, and the name is one word. -/
structure IsNamed (key : PublicKey) : Prop where
  ne_nil : key.algorithm ≠ []
  not_blank : ∀ c ∈ key.algorithm, Text.isBlank c = false
  embedded : embeddedAlgorithm key.data = .ok key.algorithm

variable {key : PublicKey}

theorem parse_trim (text : Text) : parse text.trim = parse text := by
  unfold parse
  rw [Text.trim_trim]

theorem IsNamed.parse_line (h : key.IsNamed) :
    parse key.line = .ok { key with comment := key.comment.trim } :=
  PublicKey.parse_line key h.ne_nil h.not_blank h.embedded

theorem IsNamed.words_line (h : key.IsNamed) :
    key.line.words = key.algorithm :: Base64.encodeText key.data :: key.comment.words := by
  have hspace : Text.isBlank ' ' = true := by decide
  have hencoded : Base64.encodeText key.data ≠ [] :=
    Base64.encodeText_ne_nil (ne_nil_of_embeddedAlgorithm h.embedded)
  have hwords := Text.words_of_forall_not_blank hencoded fun _ hc =>
    Base64.not_blank_of_mem_encodeText hc
  by_cases hcomment : key.comment = []
  · rw [line, if_pos hcomment, hcomment, Text.words_append_cons hspace,
      Text.words_of_forall_not_blank h.ne_nil h.not_blank, hwords]
    rfl
  · rw [line, if_neg hcomment, Text.words_append_cons hspace, Text.words_append_cons hspace,
      Text.words_of_forall_not_blank h.ne_nil h.not_blank, hwords]
    rfl

theorem IsNamed.trim_line_ne_nil (h : key.IsNamed) : key.line.trim ≠ [] := by
  intro hnil
  have hwords := h.words_line
  rw [← Text.words_trim, hnil] at hwords
  nomatch hwords

/-- Up to the first newline there is a line of the same key. -/
theorem IsNamed.exists_splitOn_line_eq (h : key.IsNamed) :
    ∃ first rest comment, key.line.splitOn '\n' = first :: rest ∧
      Text.trim first = (line { key with comment := comment }).trim := by
  let withData := key.algorithm ++ ' ' :: Base64.encodeText key.data
  have hnewline : Text.isBlank '\n' = true := by decide
  -- so the first newline, if there is one, is in the comment
  have hwithData : '\n' ∉ withData := by
    intro hmem
    rcases List.mem_append.1 hmem with hmem | hmem
    · exact absurd hnewline (by simp [h.not_blank _ hmem])
    · rcases List.mem_cons.1 hmem with hspace | hmem
      · exact absurd hspace (by decide)
      · exact absurd hnewline (by simp [Base64.not_blank_of_mem_encodeText hmem])
  by_cases hempty : key.comment = []
  · have hline : key.line = withData := if_pos hempty
    refine ⟨withData, [], [], by rw [hline, List.splitOn_eq_singleton hwithData], ?_⟩
    rfl
  · have hline : key.line = withData ++ ' ' :: key.comment := if_neg hempty
    obtain ⟨first, rest, -, hfirst, hcomment⟩ := Text.exists_splitOn_newline_eq key.comment
    have hpiece : '\n' ∉ withData ++ ' ' :: first := by
      simp [hwithData, hfirst]
    have htrim : (withData ++ ' ' :: first).trim =
        (line { key with comment := first }).trim := by
      by_cases hnil : first = []
      · have hblank : Text.AllBlank [' '] := by decide
        rw [hnil, Text.trim_append_of_allBlank hblank]
        rfl
      · exact congrArg Text.trim (if_neg hnil).symm
    rcases hcomment with hcomment | ⟨after, hcomment⟩
    · exact ⟨_, [], first, by rw [hline, hcomment, List.splitOn_eq_singleton hpiece], htrim⟩
    · refine ⟨_, after.splitOn '\n', first, ?_, htrim⟩
      rw [hline, hcomment, ← List.cons_append, ← List.append_assoc,
        List.splitOn_append_cons_self_of_not_mem hpiece]

end PublicKey

namespace AuthorizedKeys.ManagedEntry

/-- Whatever has the words of a line makes an entry for the key of that line. -/
theorem exists_ofText_eq {key : PublicKey} {text : Text} (h : key.IsNamed)
    (htype : typeStart.isPrefixOf key.algorithm = true) (hwords : text.words = key.line.words) :
    ∃ entry, ofText text = .ok entry ∧ entry.fingerprint = key.fingerprint := by
  let bare : PublicKey := { key with comment := [] }
  have hbare : bare.IsNamed := ⟨h.ne_nil, h.not_blank, h.embedded⟩
  have hparse : PublicKey.parse
      (Text.join [' '] [key.algorithm, Base64.encodeText key.data]) = .ok bare := by
    rw [Text.join_pair]
    exact hbare.parse_line
  rw [h.words_line] at hwords
  exact ⟨_, ofText_eq_ok_iff.2 ⟨[], _, _, _, bare, ⟨hwords, nofun, htype⟩, hparse, rfl⟩, rfl⟩

end AuthorizedKeys.ManagedEntry

namespace KeyPair

variable {generator : Generator} {comment : Text} {check : UInt32} {pair : KeyPair}

theorem exists_publicKey_eq_line (h : generate generator comment check = .ok pair) :
    ∃ data, PublicKey.IsNamed ⟨pair.keyType.algorithm, data, comment⟩ ∧
      pair.publicKey = PublicKey.line ⟨pair.keyType.algorithm, data, comment⟩ := by
  have hnamed {keyType : KeyType} {data : Bytes}
      (hdata : ∃ rest, data = Wire.string keyType.algorithm.utf8 ++ rest) :
      PublicKey.IsNamed ⟨keyType.algorithm, data, comment⟩ :=
    ⟨keyType.algorithm_ne_nil, fun _ hc => KeyType.not_blank_of_mem_algorithm hc,
      PublicKey.embeddedAlgorithm_eq_ok_iff.2 ⟨keyType.length_algorithm_lt, hdata⟩⟩
  rcases generate_eq_ok_iff.1 h with ⟨exported, -, hpair⟩ | ⟨-, exported, -, hpair⟩
  · obtain ⟨hpoint, hseed, rfl⟩ := ofEd25519_eq_ok_iff.1 hpair
    exact ⟨_, hnamed ⟨_, Wire.encode_cons _ _⟩, rfl⟩
  · obtain ⟨key, -, rfl⟩ := ofRsa_eq_ok_iff.1 hpair
    exact ⟨_, hnamed ⟨_, Wire.encode_cons _ _⟩, rfl⟩

end KeyPair

/-- What a generator supplies is determined by its answers. -/
theorem Generator.Supplies.eq {generator : Generator} {keyType : KeyType}
    {fields fields' : KeyMaterial} (h : generator.Supplies keyType fields)
    (h' : generator.Supplies keyType fields') : fields = fields' := by
  cases h with
  | ed25519 exported hanswer =>
      cases h' with
      | ed25519 exported' hanswer' =>
          cases hanswer.symm.trans hanswer'
          rfl
  | rsa4096 exported key _ hanswer hparse =>
      cases h' with
      | rsa4096 exported' key' _ hanswer' hparse' =>
          cases hanswer.symm.trans hanswer'
          cases hparse.symm.trans hparse'
          rfl

namespace KeyFiles

open FileSystem PrivateKey

variable {fs fs' : FileSystem} {path : Text}

/-- The first line of a public key file is a line of its key. -/
theorem exists_firstKeyLine_eq {key : PublicKey} (h : key.IsNamed)
    (hread : fs.readText path = .ok (key.line ++ ['\n'])) :
    ∃ comment, firstKeyLine fs path =
      .ok (PublicKey.line { key with comment := comment }).trim := by
  obtain ⟨first, rest, comment, hsplit, htrim⟩ := h.exists_splitOn_line_eq
  have hnamed : PublicKey.IsNamed { key with comment := comment } :=
    ⟨h.ne_nil, h.not_blank, h.embedded⟩
  have hfirst : (Text.dropReturn first).trim =
      (PublicKey.line { key with comment := comment }).trim :=
    (Text.trim_dropReturn first).trans htrim
  refine ⟨comment, ?_⟩
  rw [firstKeyLine, mapError_eq_ok_iff.2 hread, ok_bind, Text.lines_append_newline, hsplit,
    List.map_cons, List.map_cons, hfirst,
    List.find?_cons_of_pos (by simpa using hnamed.trim_line_ne_nil)]
  rfl

/-- All that names a saved key names the one with this key data. -/
structure NamesKey (fs : FileSystem) (saved : SavedPaths) (pair : KeyPair) (data : Bytes) :
    Prop where
  publicKey : ∃ line, PublicKey.parse pair.publicKey = .ok line ∧
    line.algorithm = pair.keyType.algorithm ∧ line.data = data
  entry : ∃ entry, AuthorizedKeys.ManagedEntry.ofText pair.publicKey = .ok entry ∧
    entry.fingerprint = PublicKey.fingerprintOf data
  publicFile : ∃ text line entry, firstKeyLine fs saved.publicKey = .ok text ∧
    PublicKey.parse text = .ok line ∧ line.algorithm = pair.keyType.algorithm ∧
    line.data = data ∧ line.fingerprint = PublicKey.fingerprintOf data ∧
    AuthorizedKeys.ManagedEntry.ofText text = .ok entry ∧
    entry.fingerprint = PublicKey.fingerprintOf data
  privateFile : ∃ text key, fs.readText saved.privateKey = .ok text ∧
    PrivateKey.decode text = .ok key ∧ key.publicData = data ∧
    PublicKey.fingerprintOf key.publicData = PublicKey.fingerprintOf data

/-- A pair that was generated and saved is read back, whatever its comment. -/
theorem exists_namesKey_of_save {generator : Generator} {comment directory : Text}
    {check : UInt32} {pair : KeyPair} {fields : KeyMaterial} {overwrite : Bool}
    {saved : SavedPaths} (hgenerate : KeyPair.generate generator comment check = .ok pair)
    (hsupplies : generator.Supplies pair.keyType fields)
    (hsection : (pad (checkedSection check pair.keyType.algorithm fields.toList comment)).length <
      UInt32.size)
    (hsave : (save directory pair overwrite).run.run fs = (.ok saved, fs')) :
    ∃ data, NamesKey fs' saved pair data := by
  obtain ⟨data, hnamed, hline⟩ := KeyPair.exists_publicKey_eq_line hgenerate
  obtain ⟨fields', hsupplies', hread⟩ := KeyPair.exists_supplies_of_generate hgenerate
  obtain rfl := hsupplies.eq hsupplies'
  obtain ⟨line, key, hhalves⟩ := hread hsection
  obtain ⟨hprivate, hpublic⟩ := stat_of_run_save hsave
  have htype : AuthorizedKeys.typeStart.isPrefixOf pair.keyType.algorithm = true := by
    cases pair.keyType <;> decide
  have hdata : line.data = data := by
    have hparse := hhalves.publicKey
    rw [hline, hnamed.parse_line] at hparse
    exact congrArg PublicKey.data (Except.ok.inj hparse).symm
  have hfile : fs'.readText saved.publicKey =
      .ok (PublicKey.line ⟨pair.keyType.algorithm, data, comment⟩ ++ ['\n']) := by
    rw [readText_of_stat hpublic, publicKeyFile, hline]
  -- the file is read as a line of the same key, with the comment that is left of it
  obtain ⟨comment', hfirst⟩ := exists_firstKeyLine_eq hnamed hfile
  have hnamed' : PublicKey.IsNamed ⟨pair.keyType.algorithm, data, comment'⟩ :=
    ⟨hnamed.ne_nil, hnamed.not_blank, hnamed.embedded⟩
  obtain ⟨entry, hentry, hfingerprint⟩ := AuthorizedKeys.ManagedEntry.exists_ofText_eq hnamed htype
    (congrArg Text.words hline)
  obtain ⟨entry', hentry', hfingerprint'⟩ :=
    AuthorizedKeys.ManagedEntry.exists_ofText_eq hnamed' htype (Text.words_trim _)
  have hfound : PublicKey.parse
      (PublicKey.line ⟨pair.keyType.algorithm, data, comment'⟩).trim =
        .ok ⟨pair.keyType.algorithm, data, comment'.trim⟩ := by
    rw [PublicKey.parse_trim]
    exact hnamed'.parse_line
  have hkey : key.publicData = data := by rw [← hhalves.data, hdata]
  exact ⟨data, {
    publicKey := ⟨line, hhalves.publicKey, hhalves.lineAlgorithm, hdata⟩
    entry := ⟨entry, hentry, hfingerprint⟩
    publicFile := ⟨_, _, entry', hfirst, hfound, rfl, rfl, rfl, hentry', hfingerprint'⟩
    privateFile := ⟨_, key, readText_of_stat hprivate, hhalves.privateKey, hkey, by rw [hkey]⟩ }⟩

/-- A comment that begins with a newline, saved in an empty file system. -/
theorem exists_namesKey_of_save_newline :
    let generator : Generator := fun _ => .pair ⟨List.replicate 32 0xfe, ⟨List.replicate 32 0x11⟩⟩
    let comment : Text := ['\n', 'a', '\r', '\n', ' ']
    ∃ pair saved fs' data, KeyPair.generate generator comment 7 = .ok pair ∧
      (save ".ssh".toList pair false).run.run .empty = (.ok saved, fs') ∧
      NamesKey fs' saved pair data := by
  intro generator comment
  have hsupplies : generator.Supplies .ed25519 _ := .ed25519 _ rfl rfl rfl
  obtain ⟨pair, hpair⟩ : ∃ pair : KeyPair, pair = {
      publicKey := (Ed25519.publicKey ⟨List.replicate 32 0xfe, rfl⟩ comment).line
      privateKey := Ed25519.privateKeyText ⟨List.replicate 32 0x11, rfl⟩
        ⟨List.replicate 32 0xfe, rfl⟩ comment 7
      keyType := .ed25519 } := ⟨_, rfl⟩
  have hgenerate : KeyPair.generate generator comment 7 = .ok pair :=
    KeyPair.generate_eq_ok_iff.2
      (.inl ⟨_, rfl, KeyPair.ofEd25519_eq_ok_iff.2 ⟨rfl, rfl, hpair⟩⟩)
  have hsaved : ((save ".ssh".toList pair false).run.run .empty).1 =
      .ok ⟨".ssh/id_ed25519".toList, ".ssh/id_ed25519.pub".toList⟩ := by
    rw [hpair]
    decide +kernel
  rcases hsave : (save ".ssh".toList pair false).run.run .empty with ⟨result, fs'⟩
  rw [hsave] at hsaved
  cases hsaved
  have htype : pair.keyType = .ed25519 := by rw [hpair]
  rw [← htype] at hsupplies
  obtain ⟨data, hdata⟩ := exists_namesKey_of_save hgenerate hsupplies
    (by rw [hpair]; decide +kernel) hsave
  exact ⟨pair, _, fs', data, hgenerate, hsave, hdata⟩

end KeyFiles

end SshKeys
