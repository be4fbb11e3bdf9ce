import SshKeys.Error
import SshKeys.Hash.Sha256

/-!
Public key lines: algorithm, base64 key data and comment, a blank between.

The key data repeats the algorithm as its first string, and `parse` refuses a
line whose two names differ. The comment is all that follows the key data, less
the blanks at its ends, so it may hold blanks itself.
-/

namespace SshKeys

structure PublicKey where
  algorithm : Text
  data : Bytes
  comment : Text
  deriving DecidableEq, Repr

namespace PublicKey

/-- The line of a key. An empty comment leaves no blank behind. -/
def line (key : PublicKey) : Text :=
  let withData := key.algorithm ++ ' ' :: Base64.encodeText key.data
  if key.comment = [] then withData else withData ++ ' ' :: key.comment

/-- The SHA-256 digest of key data, as fingerprints are written. -/
def fingerprintOf (data : Bytes) : Text :=
  "SHA256:".toList ++ Base64.encodeUnpadded (Hash.sha256 data)

def fingerprint (key : PublicKey) : Text :=
  fingerprintOf key.data

/-- The algorithm that key data names. -/
def embeddedAlgorithm (data : Bytes) : Except KeyError Text :=
  (Wire.Read.text.run.run (.start data)).1.mapError .wire

def parse (text : Text) : Except KeyError PublicKey := do
  let trimmed := text.trim
  if trimmed = [] then
    throw (.invalidPublicKey .empty)
  let (algorithm, afterAlgorithm) := trimmed.cutAtBlank
  let some rest := afterAlgorithm
    | throw (.invalidPublicKey .missingData)
  let (encoded, afterData) := Text.cutAtBlank rest
  let data ← decodeBase64 encoded
  let embedded ← embeddedAlgorithm data
  if embedded ≠ algorithm then
    throw (.invalidPublicKey (.algorithmMismatch embedded algorithm))
  return ⟨algorithm, data, Text.trim (afterData.getD [])⟩

end PublicKey

end SshKeys
