import SshKeys.PrivateKey
import SshKeys.PublicKey
import SshKeys.Rsa.Components

/-!
RSA keys in their two text forms. The key data has the exponent before the
modulus, the container the modulus before the exponent; `dp` and `dq` are not
stored.
-/

namespace SshKeys.Rsa

def algorithm : Text :=
  PrivateKey.rsaType

def keyData (n e : Bytes) : Bytes :=
  Wire.encode [.text algorithm, .mpint e, .mpint n]

def publicKey (n e : Bytes) (comment : Text) : PublicKey :=
  ⟨algorithm, keyData n e, comment⟩

/-- The fields of the container: the components as multiple-precision integers. -/
def fields (key : Components) : KeyMaterial :=
  .rsa (Wire.mpintBody key.n) (Wire.mpintBody key.e) (Wire.mpintBody key.d)
    (Wire.mpintBody key.qi) (Wire.mpintBody key.p) (Wire.mpintBody key.q)

/-- The armored private key. The check-int is written twice. -/
def privateKeyText (key : Components) (comment : Text) (check : UInt32) : Text :=
  PrivateKey.armored (keyData key.n key.e)
    (PrivateKey.checkedSection check algorithm (fields key).toList comment)

end SshKeys.Rsa
