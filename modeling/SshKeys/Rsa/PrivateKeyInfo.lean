import SshKeys.Der.Reader
import SshKeys.Rsa.Components

/-!
RSA keys as key generators export them: a PrivateKeyInfo whose OCTET STRING
holds an RSAPrivateKey.

    PrivateKeyInfo ::= SEQUENCE
      version              INTEGER
      privateKeyAlgorithm  SEQUENCE, skipped
      privateKey           OCTET STRING holding
        RSAPrivateKey ::= SEQUENCE
          version, n, e, d, p, q, dp, dq, qi   INTEGER

`parse` walks through the headers in this order and does not compare the length
of an inner element with that of the one around it. `encode` and
`encodePublic` write the distinguished form.
-/

namespace SshKeys.Rsa.PrivateKeyInfo

open Der

def parse (data : Bytes) : Except Der.Error Components := do
  let outer ← headerAt data 0 sequenceTag
  let version ← integerAt data outer.start
  let algorithm ← headerAt data version.next sequenceTag
  let wrapper ← headerAt data algorithm.stop octetStringTag
  let inner ← headerAt data wrapper.start sequenceTag
  let innerVersion ← integerAt data inner.start
  let n ← integerAt data innerVersion.next
  let e ← integerAt data n.next
  let d ← integerAt data e.next
  let p ← integerAt data d.next
  let q ← integerAt data p.next
  let dp ← integerAt data q.next
  let dq ← integerAt data dp.next
  let qi ← integerAt data dq.next
  return ⟨n.value, e.value, d.value, p.value, q.value, dp.value, dq.value, qi.value⟩

/-- The AlgorithmIdentifier of RSA: its object identifier, and NULL. -/
def algorithmIdentifier : Bytes :=
  Der.sequence [[0x06, 0x09, 0x2a, 0x86, 0x48, 0x86, 0xf7, 0x0d, 0x01, 0x01, 0x01], [0x05, 0x00]]

/-- The numbers of a key. -/
structure Numbers where
  n : Nat
  e : Nat
  d : Nat
  p : Nat
  q : Nat
  dp : Nat
  dq : Nat
  qi : Nat

def Numbers.encode (key : Numbers) : Bytes :=
  let inner := Der.sequence
    ([0, key.n, key.e, key.d, key.p, key.q, key.dp, key.dq, key.qi].map integer)
  Der.sequence [integer 0, algorithmIdentifier, element octetStringTag inner]

/-- The SubjectPublicKeyInfo of a key. -/
def Numbers.encodePublic (key : Numbers) : Bytes :=
  Der.sequence [algorithmIdentifier,
    element bitStringTag (0 :: Der.sequence [integer key.n, integer key.e])]

end SshKeys.Rsa.PrivateKeyInfo
