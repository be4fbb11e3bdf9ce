import SshKeys.Text.Quoted

/-!
The components of an RSA private key, as unsigned numbers most significant
octet first. Leading zeros are allowed; whoever writes a component takes them
off.
-/

namespace SshKeys.Rsa

structure Components where
  /-- modulus -/
  n : Bytes
  /-- public exponent -/
  e : Bytes
  /-- private exponent -/
  d : Bytes
  p : Bytes
  q : Bytes
  /-- the private exponent modulo `p - 1` -/
  dp : Bytes
  /-- the private exponent modulo `q - 1` -/
  dq : Bytes
  /-- inverse of `q` modulo `p` -/
  qi : Bytes
  deriving DecidableEq

/-- The size of the modulus and the public exponent; all else is withheld. -/
def Components.description (key : Components) : String :=
  Text.Quoted.description "RsaKeyComponents"
    [("n_len", Text.decimal key.n.length), ("e", Text.Quoted.octets key.e),
      ("private", Text.Quoted.redacted)]

end SshKeys.Rsa
