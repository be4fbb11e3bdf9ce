import SshKeys.Armor
import SshKeys.Text.Quoted

/-!
The container of an unencrypted private key.

    magic "openssh-key-v1" and a zero octet
    string  cipher, "none"
    string  key derivation, "none"
    string  options of the key derivation
    word    number of keys, 1
    string  public key data
    string  private section, padded to whole blocks
        word    check-int
        word    check-int again
        string  key type
        string  one for each field of the key type
        string  comment
        padding 1, 2, 3, ...

`container` and `checkedSection` write these parts, `armored` puts the armor
around them, and `decode` accepts what they write and nothing else, except that
it does not look at the options of the key derivation.
-/

namespace SshKeys

/-- The fields of a decoded key, the contents of its strings as they stand. -/
inductive KeyMaterial where
  /-- the secret is the seed and then the public key -/
  | ed25519 (point secret : Bytes)
  | rsa (n e d iqmp p q : Bytes)
  deriving DecidableEq, Repr

namespace KeyMaterial

/-- The fields in the order in which they are written. -/
def toList : KeyMaterial → List Bytes
  | .ed25519 point secret => [point, secret]
  | .rsa n e d iqmp p q => [n, e, d, iqmp, p, q]

/-- What is public about the fields; all else is withheld. -/
def description : KeyMaterial → String
  | .ed25519 point _ =>
    Text.Quoted.description "Ed25519"
      [("public", Text.Quoted.octets point), ("private", Text.Quoted.redacted)]
  | .rsa n e _ _ _ _ =>
    Text.Quoted.description "Rsa"
      [("n_len", Text.decimal n.length), ("e", Text.Quoted.octets e),
        ("private", Text.Quoted.redacted)]

end KeyMaterial

/-- A decoded container. -/
structure PrivateKey where
  cipher : Text
  kdf : Text
  publicData : Bytes
  checkInts : UInt32 × UInt32
  keyType : Text
  fields : KeyMaterial
  comment : Text
  padding : Bytes
  deriving DecidableEq, Repr

namespace PrivateKey

def magic : Bytes :=
  Text.utf8 "openssh-key-v1\x00".toList

/-- The name of no cipher and of no key derivation. -/
def noCipher : Text :=
  "none".toList

def ed25519Type : Text :=
  "ssh-ed25519".toList

def rsaType : Text :=
  "ssh-rsa".toList

/-- Octets in a block when there is no cipher. -/
def blockSize : Nat :=
  8

/-! ### Writing -/

/-- The octets 1, 2, 3, ... that fill the last block after `length` octets. -/
def paddingAfter (length : Nat) : Bytes :=
  (List.range ((blockSize - length % blockSize) % blockSize)).map fun i => UInt8.ofNat (i + 1)

def pad (body : Bytes) : Bytes :=
  body ++ paddingAfter body.length

theorem length_pad_mod (b : Bytes) : (pad b).length % blockSize = 0 := by
  simp [pad, paddingAfter, blockSize]
  omega

/-- A private section without its padding. -/
def checkedSection (check : UInt32) (keyType : Text) (fields : List Bytes) (comment : Text) :
    Bytes :=
  Wire.encode ([.word check, .word check, .text keyType] ++ fields.map .string ++ [.text comment])

/-- A container around public key data and a padded private section. -/
def container (kdfOptions publicData paddedSection : Bytes) : Bytes :=
  Wire.encode [.raw magic, .text noCipher, .text noCipher, .string kdfOptions, .word 1,
    .string publicData, .string paddedSection]

/-- The armored container of an unpadded private section. -/
def armored (publicData body : Bytes) : Text :=
  Armor.wrap (container [] publicData (pad body))

/-! ### Reading -/

/-- A read that may refuse what it has read. -/
abbrev Decoder := ExceptT KeyError (StateM Wire.Reader)

namespace Decoder

def item {α : Type} (read : Wire.Read α) : Decoder α :=
  read.adapt .wire

def refuse {α : Type} (fault : PrivateKeyFault) : Decoder α :=
  throw (.invalidPrivateKey fault)

def fields (keyType : Text) : Decoder KeyMaterial := do
  if keyType = ed25519Type then
    let point ← item .bytes
    let secret ← item .bytes
    return .ed25519 point secret
  else if keyType = rsaType then
    let n ← item .bytes
    let e ← item .bytes
    let d ← item .bytes
    let iqmp ← item .bytes
    let p ← item .bytes
    let q ← item .bytes
    return .rsa n e d iqmp p q
  else
    refuse (.unsupportedKeyType keyType)

/-- What a private section holds. -/
structure Contents where
  checkInts : UInt32 × UInt32
  keyType : Text
  fields : KeyMaterial
  comment : Text
  padding : Bytes

/-- Whether these octets are less than a block and count 1, 2, 3, ... -/
def isPadding (octets : Bytes) : Bool :=
  octets.length < blockSize &&
    octets == (List.range octets.length).map fun i => UInt8.ofNat (i + 1)

/-- A private section, which takes up whole blocks. -/
def privateSection : Decoder Contents := do
  let first ← item .word
  let second ← item .word
  if first ≠ second then
    refuse .checkMismatch
  let keyType ← item .text
  let found ← fields keyType
  let comment ← item .text
  let padding := (← get).remaining
  unless isPadding padding do
    refuse .badPadding
  return ⟨(first, second), keyType, found, comment, padding⟩

/-- The container after its magic. -/
def body : Decoder PrivateKey := do
  let cipher ← item .text
  let kdf ← item .text
  let _ ← item .bytes
  if cipher ≠ noCipher ∨ kdf ≠ noCipher then
    refuse (.encrypted cipher)
  let count ← item .word
  if count ≠ 1 then
    refuse (.keyCount count)
  let publicData ← item .bytes
  let sealed ← item .bytes
  unless (← get).isEmpty do
    refuse .trailingData
  if sealed.length % blockSize ≠ 0 then
    refuse .misaligned
  let contents ← (privateSection.run.run (.start sealed)).1
  return ⟨cipher, kdf, publicData, contents.checkInts, contents.keyType, contents.fields,
    contents.comment, contents.padding⟩

end Decoder

/-- Reads a container. -/
def ofContainer (data : Bytes) : Except KeyError PrivateKey :=
  if magic.isPrefixOf data then (Decoder.body.run.run (.start (data.drop magic.length))).1
  else .error (.invalidPrivateKey .badMagic)

/-- Reads an armored private key. -/
def decode (text : Text) : Except KeyError PrivateKey := do
  ofContainer (← Armor.unwrap text)

end PrivateKey

end SshKeys
