import SshKeys.KeyPair
import SshKeys.Proofs.PrivateKey.RoundTrip
import SshKeys.Proofs.PublicKey

/-!
The two halves of a generated pair belong together.

What a generator supplies follows from its answers alone (`Supplies`), and
whether two texts are halves of one key from what they are read as (`IsReadAs`).
Keys of both types are written in one way: a line whose key data names the
algorithm, and a container with the same key data. So the halves are read once,
for either type.
-/

namespace SshKeys

theorem KeyType.algorithm_ne_nil (keyType : KeyType) : keyType.algorithm ≠ [] := by
  cases keyType <;> decide

theorem KeyType.not_blank_of_mem_algorithm {keyType : KeyType} {c : Char}
    (h : c ∈ keyType.algorithm) : Text.isBlank c = false := by
  have hall : keyType.algorithm.all (fun c => !Text.isBlank c) = true := by
    cases keyType <;> decide
  simpa using List.all_eq_true.1 hall c h

theorem KeyType.length_algorithm_lt (keyType : KeyType) :
    keyType.algorithm.utf8.length < UInt32.size := by
  cases keyType <;> decide

/-- The fields that the answers of a generator lead to. -/
inductive Generator.Supplies (generator : Generator) : KeyType → KeyMaterial → Prop
  | ed25519 (exported : ExportedPair) (hanswer : generator .ed25519 = .pair exported)
      (hpoint : exported.publicKey.length = Ed25519.keyLength)
      (hseed : exported.privateKey.octets.length = Ed25519.keyLength) :
      generator.Supplies .ed25519
        (.ed25519 exported.publicKey (exported.privateKey.octets ++ exported.publicKey))
  | rsa4096 (exported : ExportedPair) (key : Rsa.Components)
      (hunsupported : generator .ed25519 = .unsupported)
      (hanswer : generator .rsa4096 = .pair exported)
      (hparse : Rsa.PrivateKeyInfo.parse exported.privateKey.octets = .ok key) :
      generator.Supplies .rsa4096
        (.rsa (Wire.mpintBody key.n) (Wire.mpintBody key.e) (Wire.mpintBody key.d)
          (Wire.mpintBody key.qi) (Wire.mpintBody key.p) (Wire.mpintBody key.q))

namespace KeyPair

open PrivateKey

/-- Both texts of a pair are read, and as halves of one key. -/
structure IsReadAs (pair : KeyPair) (comment : Text) (fields : KeyMaterial) (line : PublicKey)
    (key : PrivateKey) : Prop where
  publicKey : PublicKey.parse pair.publicKey = .ok line
  privateKey : PrivateKey.decode pair.privateKey = .ok key
  data : line.data = key.publicData
  lineAlgorithm : line.algorithm = pair.keyType.algorithm
  keyAlgorithm : key.keyType = pair.keyType.algorithm
  lineComment : line.comment = comment.trim
  keyComment : key.comment = comment
  fields : key.fields = fields

/-! ### Reading the halves -/

theorem isReadAs_written {keyType : KeyType} {fields : KeyMaterial}
    (htype : fields.keyType = keyType.algorithm) {data : Bytes}
    (hdata : ∃ rest, data = Wire.string keyType.algorithm.utf8 ++ rest)
    (hlength : data.length < UInt32.size) (comment : Text) (check : UInt32)
    (hsection : (pad (checkedSection check keyType.algorithm fields.toList comment)).length <
      UInt32.size) :
    IsReadAs {
        publicKey := PublicKey.line ⟨keyType.algorithm, data, comment⟩
        privateKey := armored data
          (checkedSection check keyType.algorithm fields.toList comment)
        keyType := keyType }
      comment fields ⟨keyType.algorithm, data, comment.trim⟩
      (written data check fields comment) := by
  have hembedded : PublicKey.embeddedAlgorithm data = .ok keyType.algorithm :=
    PublicKey.embeddedAlgorithm_eq_ok_iff.2 ⟨keyType.length_algorithm_lt, hdata⟩
  have hline := PublicKey.parse_line ⟨keyType.algorithm, data, comment⟩
    keyType.algorithm_ne_nil (fun _ hc => KeyType.not_blank_of_mem_algorithm hc) hembedded
  -- the container is read by the type of its fields, which is that of the pair
  rw [← htype] at hsection
  have hkey := decode_armored check fields comment hlength hsection
  rw [htype] at hkey
  exact ⟨hline, hkey, rfl, rfl, htype, rfl, rfl, rfl⟩

theorem exists_isReadAs_ofEd25519 (seed point : Ed25519.KeyOctets) (comment : Text)
    (check : UInt32)
    (hsection : (pad (checkedSection check Ed25519.algorithm (Ed25519.fields seed point).toList
      comment)).length < UInt32.size) :
    ∃ line key, IsReadAs {
        publicKey := (Ed25519.publicKey point comment).line
        privateKey := Ed25519.privateKeyText seed point comment check
        keyType := .ed25519 }
      comment (Ed25519.fields seed point) line key := by
  have htype : (Ed25519.fields seed point).keyType = KeyType.ed25519.algorithm := rfl
  have hdata : ∃ rest, Ed25519.keyData point =
      Wire.string KeyType.ed25519.algorithm.utf8 ++ rest := ⟨_, Wire.encode_cons _ _⟩
  have hlength : (Ed25519.keyData point).length < UInt32.size := by
    rw [Ed25519.length_keyData]
    decide
  exact ⟨_, _, isReadAs_written htype hdata hlength comment check hsection⟩

theorem exists_isReadAs_ofRsa (key : Rsa.Components) (comment : Text) (check : UInt32)
    (hsection : (pad (checkedSection check Rsa.algorithm (Rsa.fields key).toList
      comment)).length < UInt32.size) :
    ∃ line found, IsReadAs {
        publicKey := (Rsa.publicKey key.n key.e comment).line
        privateKey := Rsa.privateKeyText key comment check
        keyType := .rsa4096 }
      comment (Rsa.fields key) line found := by
  have htype : (Rsa.fields key).keyType = KeyType.rsa4096.algorithm := rfl
  have hdata : ∃ rest, Rsa.keyData key.n key.e =
      Wire.string KeyType.rsa4096.algorithm.utf8 ++ rest := ⟨_, Wire.encode_cons _ _⟩
  exact ⟨_, _, isReadAs_written htype hdata (Rsa.length_keyData_lt hsection) comment check
    hsection⟩

/-! ### Encoding what was exported -/

variable {exported : ExportedPair} {comment : Text} {check : UInt32} {pair : KeyPair}

theorem ofEd25519_eq_ok_iff :
    ofEd25519 exported comment check = .ok pair ↔
      ∃ (hpoint : exported.publicKey.length = Ed25519.keyLength)
        (hseed : exported.privateKey.octets.length = Ed25519.keyLength), pair = {
          publicKey := (Ed25519.publicKey ⟨exported.publicKey, hpoint⟩ comment).line
          privateKey := Ed25519.privateKeyText ⟨exported.privateKey.octets, hseed⟩
            ⟨exported.publicKey, hpoint⟩ comment check
          keyType := .ed25519 } := by
  unfold ofEd25519
  by_cases hpoint : exported.publicKey.length = Ed25519.keyLength
  · by_cases hseed : exported.privateKey.octets.length = Ed25519.keyLength
    · simp [hpoint, hseed, eq_comm]
    · simp [hpoint, hseed]
  · simp [hpoint]

theorem ofRsa_eq_ok_iff :
    ofRsa exported comment check = .ok pair ↔
      ∃ key, Rsa.PrivateKeyInfo.parse exported.privateKey.octets = .ok key ∧ pair = {
        publicKey := (Rsa.publicKey key.n key.e comment).line
        privateKey := Rsa.privateKeyText key comment check
        keyType := .rsa4096 } := by
  rw [ofRsa, bind_eq_ok_iff]
  simp only [mapError_eq_ok_iff]
  constructor
  · rintro ⟨key, hparse, hpair⟩
    cases hpair
    exact ⟨key, hparse, rfl⟩
  · rintro ⟨key, hparse, rfl⟩
    exact ⟨key, hparse, rfl⟩

/-! ### Asking the generator -/

variable {generator : Generator}

theorem generate_eq_ok_iff :
    generate generator comment check = .ok pair ↔
      (∃ exported, generator .ed25519 = .pair exported ∧
        ofEd25519 exported comment check = .ok pair) ∨
      (generator .ed25519 = .unsupported ∧ ∃ exported, generator .rsa4096 = .pair exported ∧
        ofRsa exported comment check = .ok pair) := by
  unfold generate generateIn Generator.pureIn
  cases hed25519 : generator .ed25519 with
  | pair exported => simp
  | failed e => simp
  | unsupported =>
      cases hrsa : generator .rsa4096 with
      | pair exported => simp
      | failed e => simp
      | unsupported => simp

/-- Ed25519 is asked for first, and RSA only if that is unsupported. -/
theorem generateIn_recorded (generator : Generator) (comment : Text) (check : UInt32) :
    ∃ asked, (generateIn generator.recorded comment check).run [] =
        (generate generator comment check, .ed25519 :: asked) ∧
      (generator .ed25519 = .unsupported → asked = [.rsa4096]) ∧
      (generator .ed25519 ≠ .unsupported → asked = []) := by
  unfold generate generateIn Generator.pureIn Generator.recorded
  cases generator .ed25519 with
  | pair exported => exact ⟨[], rfl, nofun, fun _ => rfl⟩
  | failed e => exact ⟨[], rfl, nofun, fun _ => rfl⟩
  | unsupported =>
      refine ⟨[.rsa4096], ?_, fun _ => rfl, fun h => absurd rfl h⟩
      cases generator .rsa4096 with
      | pair exported => rfl
      | failed e => rfl
      | unsupported => rfl

theorem generate_of_failed {e : KeyError} (h : generator .ed25519 = .failed e) :
    generate generator comment check = .error e := by
  simp [generate, generateIn, Generator.pureIn, h]

theorem generate_of_unsupported_failed {e : KeyError}
    (hunsupported : generator .ed25519 = .unsupported) (h : generator .rsa4096 = .failed e) :
    generate generator comment check = .error e := by
  simp [generate, generateIn, Generator.pureIn, hunsupported, h]

/-- A pair comes about exactly where the answers supply the material for one. -/
theorem exists_generate_eq_ok_iff :
    (∃ pair, generate generator comment check = .ok pair) ↔
      (∃ exported, generator .ed25519 = .pair exported ∧
        exported.publicKey.length = Ed25519.keyLength ∧
        exported.privateKey.octets.length = Ed25519.keyLength) ∨
      (generator .ed25519 = .unsupported ∧ ∃ exported, generator .rsa4096 = .pair exported ∧
        ∃ key, Rsa.PrivateKeyInfo.parse exported.privateKey.octets = .ok key) := by
  simp only [generate_eq_ok_iff, ofEd25519_eq_ok_iff, ofRsa_eq_ok_iff]
  constructor
  · rintro ⟨pair, ⟨exported, hanswer, hpoint, hseed, -⟩ |
      ⟨hunsupported, exported, hanswer, key, hparse, -⟩⟩
    · exact .inl ⟨exported, hanswer, hpoint, hseed⟩
    · exact .inr ⟨hunsupported, exported, hanswer, key, hparse⟩
  · rintro (⟨exported, hanswer, hpoint, hseed⟩ |
      ⟨hunsupported, exported, hanswer, key, hparse⟩)
    · exact ⟨_, .inl ⟨exported, hanswer, hpoint, hseed, rfl⟩⟩
    · exact ⟨_, .inr ⟨hunsupported, exported, hanswer, key, hparse, rfl⟩⟩

theorem exists_supplies_of_generate (h : generate generator comment check = .ok pair) :
    ∃ fields, generator.Supplies pair.keyType fields ∧
      ((pad (checkedSection check pair.keyType.algorithm fields.toList comment)).length <
        UInt32.size → ∃ line key, pair.IsReadAs comment fields line key) := by
  rcases generate_eq_ok_iff.1 h with ⟨exported, hanswer, hpair⟩ |
    ⟨hunsupported, exported, hanswer, hpair⟩
  · obtain ⟨hpoint, hseed, rfl⟩ := ofEd25519_eq_ok_iff.1 hpair
    exact ⟨_, .ed25519 exported hanswer hpoint hseed,
      exists_isReadAs_ofEd25519 ⟨_, hseed⟩ ⟨_, hpoint⟩ comment check⟩
  · obtain ⟨key, hparse, rfl⟩ := ofRsa_eq_ok_iff.1 hpair
    exact ⟨_, .rsa4096 exported key hunsupported hanswer hparse,
      exists_isReadAs_ofRsa key comment check⟩

/-- Whatever a generator answers, it is asked for Ed25519 once and then for RSA at most once, its
errors are handed on, there is a pair exactly where it supplies one, and the halves of that pair
belong together. -/
theorem generate_halves_belong_together (generator : Generator) (comment : Text)
    (check : UInt32) :
    (∃ asked, (generateIn generator.recorded comment check).run [] =
        (generate generator comment check, .ed25519 :: asked) ∧
      (generator .ed25519 = .unsupported → asked = [.rsa4096]) ∧
      (generator .ed25519 ≠ .unsupported → asked = [])) ∧
    (∀ e, generator .ed25519 = .failed e → generate generator comment check = .error e) ∧
    (∀ e, generator .ed25519 = .unsupported → generator .rsa4096 = .failed e →
      generate generator comment check = .error e) ∧
    ((∃ pair, generate generator comment check = .ok pair) ↔
      (∃ exported, generator .ed25519 = .pair exported ∧
        exported.publicKey.length = Ed25519.keyLength ∧
        exported.privateKey.octets.length = Ed25519.keyLength) ∨
      (generator .ed25519 = .unsupported ∧ ∃ exported, generator .rsa4096 = .pair exported ∧
        ∃ key, Rsa.PrivateKeyInfo.parse exported.privateKey.octets = .ok key)) ∧
    ∀ pair, generate generator comment check = .ok pair →
      ∃ fields, generator.Supplies pair.keyType fields ∧
        ((pad (checkedSection check pair.keyType.algorithm fields.toList comment)).length <
          UInt32.size → ∃ line key, pair.IsReadAs comment fields line key) :=
  ⟨generateIn_recorded generator comment check, fun _ => generate_of_failed,
    fun _ => generate_of_unsupported_failed, exists_generate_eq_ok_iff,
    fun _ => exists_supplies_of_generate⟩

/-- A small RSA key, from a generator without Ed25519. -/
theorem generate_halves_belong_together_fallback :
    let info : Bytes := Rsa.PrivateKeyInfo.Numbers.encode ⟨3233, 17, 413, 61, 53, 53, 49, 38⟩
    let generator : Generator := fun
      | .ed25519 => .unsupported
      | .rsa4096 => .pair ⟨[], ⟨info⟩⟩
    let comment : Text := [' ', 'a', '\n', 'b', '\t']
    ∃ pair line key, generate generator comment 7 = .ok pair ∧
      pair.IsReadAs comment (.rsa [12, 161] [17] [1, 157] [38] [61] [53]) line key := by
  intro info generator comment
  have hparse : Rsa.PrivateKeyInfo.parse info =
      .ok ⟨[12, 161], [17], [1, 157], [61], [53], [53], [49], [38]⟩ := by decide +kernel
  obtain ⟨-, -, -, hpair, hhalves⟩ := generate_halves_belong_together generator comment 7
  obtain ⟨pair, hpair⟩ := hpair.2 (.inr ⟨rfl, _, rfl, _, hparse⟩)
  obtain ⟨fields, hsupplies, hread⟩ := hhalves pair hpair
  -- of the ways to supply a key, the answers leave the second
  generalize pair.keyType = keyType at hsupplies hread
  cases hsupplies with
  | ed25519 exported hanswer => nomatch hanswer
  | rsa4096 exported key _ hanswer hparse' =>
      cases hanswer
      cases hparse.symm.trans hparse'
      obtain ⟨line, found, h⟩ := hread (by decide +kernel)
      exact ⟨pair, line, found, hpair, h⟩

end KeyPair

end SshKeys
