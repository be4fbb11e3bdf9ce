import SshKeys.PrivateKey
import SshKeys.PublicKey

/-!
Ed25519 keys in their two text forms. The secret field of the container is the
seed followed by the public key.
-/

namespace SshKeys.Ed25519

/-- Octets in a seed and in a public key. -/
def keyLength : Nat :=
  32

/-- A seed or a public key. -/
abbrev KeyOctets := { octets : Bytes // octets.length = keyLength }

def algorithm : Text :=
  PrivateKey.ed25519Type

def keyData (point : KeyOctets) : Bytes :=
  Wire.encode [.text algorithm, .string point.val]

def publicKey (point : KeyOctets) (comment : Text) : PublicKey :=
  ⟨algorithm, keyData point, comment⟩

def fields (seed point : KeyOctets) : KeyMaterial :=
  .ed25519 point.val (seed.val ++ point.val)

/-- The armored private key. The check-int is written twice. -/
def privateKeyText (seed point : KeyOctets) (comment : Text) (check : UInt32) : Text :=
  PrivateKey.armored (keyData point)
    (PrivateKey.checkedSection check algorithm (fields seed point).toList comment)

end SshKeys.Ed25519
