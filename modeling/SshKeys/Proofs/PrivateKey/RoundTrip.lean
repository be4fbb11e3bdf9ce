import SshKeys.Ed25519.Key
import SshKeys.Proofs.Armor
import SshKeys.Proofs.PrivateKey.Grammar
import SshKeys.Proofs.Wire.Mpint
import SshKeys.Rsa.Key

/-!
Private keys are decoded as they were encoded.

The grammar of containers leaves one thing to check for each kind of key: that
what its encoder hands over is the container of the key that is expected. The
private section is the longest string of a container, so its length is the only
bound that is needed.
-/

namespace SshKeys

namespace PrivateKey

/-- The key that is found where an encoder wrote these fields and this comment. -/
def written (publicData : Bytes) (check : UInt32) (fields : KeyMaterial) (comment : Text) :
    PrivateKey where
  cipher := noCipher
  kdf := noCipher
  publicData := publicData
  checkInts := (check, check)
  keyType := fields.keyType
  fields := fields
  comment := comment
  padding := paddingAfter
    (checkedSection check fields.keyType fields.toList comment).length

theorem decode_armored (check : UInt32) (fields : KeyMaterial) (comment : Text)
    {publicData : Bytes} (hpublic : publicData.length < UInt32.size)
    (hsection : (pad (checkedSection check fields.keyType fields.toList comment)).length <
      UInt32.size) :
    decode (armored publicData (checkedSection check fields.keyType fields.toList comment)) =
      .ok (written publicData check fields comment) := by
  rw [decode, armored, Armor.unwrap_wrap, ok_bind, ofContainer_eq_ok_iff]
  exact ⟨[], check, rfl, rfl, rfl, rfl, rfl, rfl, by decide, hpublic, hsection⟩

theorem length_checkedSection (check : UInt32) (keyType : Text) (fields : List Bytes)
    (comment : Text) :
    (checkedSection check keyType fields comment).length =
      16 + keyType.utf8.length + (Wire.encode (fields.map .string)).length +
        comment.utf8.length := by
  simp only [checkedSection_eq, List.length_append, Wire.length_word, Wire.length_string]
  omega

end PrivateKey

namespace Ed25519

open PrivateKey

theorem length_keyData (point : KeyOctets) : (keyData point).length = 51 := by
  have halgorithm : algorithm.utf8.length = 11 := by decide
  simp only [keyData, Wire.encode_cons, Wire.encode_nil, Wire.Item.encode, List.length_append,
    Wire.length_string, halgorithm, point.property, keyLength, List.length_nil]

theorem length_section (seed point : KeyOctets) (comment : Text) (check : UInt32) :
    (checkedSection check algorithm (fields seed point).toList comment).length =
      131 + comment.utf8.length := by
  have halgorithm : algorithm.utf8.length = 11 := by decide
  simp only [length_checkedSection, fields, KeyMaterial.toList, List.map_cons, List.map_nil,
    Wire.encode_cons, Wire.encode_nil, Wire.Item.encode, List.length_append, Wire.length_string,
    halgorithm, seed.property, point.property, keyLength, List.length_nil]

/-- An Ed25519 key is decoded as it was encoded, whatever its comment. Padding of less than a block
fills up the 131 octets around the comment. -/
theorem decode_privateKeyText (seed point : KeyOctets) (comment : Text) (check : UInt32)
    (h : (pad (checkedSection check algorithm (fields seed point).toList comment)).length <
      UInt32.size) :
    ∃ k < 8, (131 + comment.utf8.length + k) % 8 = 0 ∧
      decode (privateKeyText seed point comment check) = .ok {
        cipher := noCipher
        kdf := noCipher
        publicData := keyData point
        checkInts := (check, check)
        keyType := algorithm
        fields := .ed25519 point.val (seed.val ++ point.val)
        comment := comment
        padding := (List.range k).map fun i => UInt8.ofNat (i + 1) } := by
  have hpublic : (keyData point).length < UInt32.size := by
    rw [length_keyData]
    decide
  have hdecode := decode_armored check (fields seed point) comment hpublic h
  refine ⟨(8 - (131 + comment.utf8.length) % 8) % 8, by omega, by omega, hdecode.trans ?_⟩
  have hpadding := congrArg paddingAfter (length_section seed point comment check)
  unfold written
  rw [show (fields seed point).keyType = algorithm from rfl, hpadding]
  rfl

/-- A comment of two lines, with a zero character and a letter of two octets. -/
theorem decode_privateKeyText_two_lines :
    let seed : KeyOctets := ⟨List.replicate 32 0x11, rfl⟩
    let point : KeyOctets := ⟨List.replicate 32 0xfe, rfl⟩
    let comment : Text := ['a', '\n', '\x00', 'é']
    (pad (checkedSection 7 algorithm (fields seed point).toList comment)).length < UInt32.size ∧
      ∃ k < 8, (131 + comment.utf8.length + k) % 8 = 0 ∧
        decode (privateKeyText seed point comment 7) = .ok {
          cipher := noCipher
          kdf := noCipher
          publicData := keyData point
          checkInts := (7, 7)
          keyType := algorithm
          fields := .ed25519 point.val (seed.val ++ point.val)
          comment := comment
          padding := (List.range k).map fun i => UInt8.ofNat (i + 1) } := by
  intro seed point comment
  have hlength : (pad (checkedSection 7 algorithm (fields seed point).toList comment)).length <
      UInt32.size := by decide +kernel
  exact ⟨hlength, decode_privateKeyText seed point comment 7 hlength⟩

end Ed25519

namespace Rsa

open PrivateKey Wire

/-- The key data repeats two fields of the private section, so it is the shorter of the two. -/
theorem length_keyData_lt {key : Components} {comment : Text} {check : UInt32}
    (h : (pad (checkedSection check algorithm (fields key).toList comment)).length <
      UInt32.size) :
    (keyData key.n key.e).length < UInt32.size := by
  have hle : (keyData key.n key.e).length ≤
      (checkedSection check algorithm (fields key).toList comment).length := by
    simp only [keyData, length_checkedSection, fields, KeyMaterial.toList, List.map_cons,
      List.map_nil, encode_cons, encode_nil, Item.encode, mpint, List.length_append,
      length_string, List.length_nil]
    omega
  rw [pad, List.length_append] at h
  omega

/-- An RSA key is decoded with every component in its place, and with its magnitude normalised.
What is not stored does not matter. -/
theorem decode_privateKeyText_components (key : Components) (comment : Text) (check : UInt32)
    (h : (pad (checkedSection check algorithm (fields key).toList comment)).length <
      UInt32.size) :
    ∃ n e d iqmp p q : Bytes, ∃ found : PrivateKey,
      decode (privateKeyText key comment check) = .ok found ∧
      (∀ dp dq : Bytes,
        decode (privateKeyText { key with dp := dp, dq := dq } comment check) = .ok found) ∧
      found.checkInts = (check, check) ∧ found.keyType = algorithm ∧ found.comment = comment ∧
      found.publicData = string algorithm.utf8 ++ string e ++ string n ∧
      found.fields = .rsa n e d iqmp p q ∧
      IsMpintBody key.n n ∧ IsMpintBody key.e e ∧ IsMpintBody key.d d ∧ IsMpintBody key.qi iqmp ∧
      IsMpintBody key.p p ∧ IsMpintBody key.q q := by
  have hdecode := decode_armored check (fields key) comment (length_keyData_lt h) h
  refine ⟨mpintBody key.n, mpintBody key.e, mpintBody key.d, mpintBody key.qi, mpintBody key.p,
    mpintBody key.q, written (keyData key.n key.e) check (fields key) comment, hdecode,
    fun _ _ => hdecode, rfl, rfl, rfl, ?_, rfl, isMpintBody_mpintBody _, isMpintBody_mpintBody _,
    isMpintBody_mpintBody _, isMpintBody_mpintBody _, isMpintBody_mpintBody _,
    isMpintBody_mpintBody _⟩
  simp [written, keyData, Wire.encode, Item.encode, mpint]

/-- Magnitudes with leading zeros, with a set high bit, and with no octets at all. -/
theorem decode_privateKeyText_components_mixed :
    let key : Components := {
      n := [0, 0, 0x80, 1]
      e := [1, 0, 1]
      d := []
      p := [0]
      q := [0xff]
      dp := [2]
      dq := [3]
      qi := [0, 0x7f] }
    (pad (checkedSection 9 algorithm (fields key).toList ['k'])).length < UInt32.size ∧
      ∃ n e d iqmp p q : Bytes, ∃ found : PrivateKey,
        decode (privateKeyText key ['k'] 9) = .ok found ∧
        (∀ dp dq : Bytes,
          decode (privateKeyText { key with dp := dp, dq := dq } ['k'] 9) = .ok found) ∧
        found.checkInts = (9, 9) ∧ found.keyType = algorithm ∧ found.comment = ['k'] ∧
        found.publicData = string algorithm.utf8 ++ string e ++ string n ∧
        found.fields = .rsa n e d iqmp p q ∧
        IsMpintBody key.n n ∧ IsMpintBody key.e e ∧ IsMpintBody key.d d ∧
        IsMpintBody key.qi iqmp ∧ IsMpintBody key.p p ∧ IsMpintBody key.q q := by
  intro key
  have hlength : (pad (checkedSection 9 algorithm (fields key).toList ['k'])).length <
      UInt32.size := by decide +kernel
  exact ⟨hlength, decode_privateKeyText_components key ['k'] 9 hlength⟩

end Rsa

end SshKeys
