import SshKeys.Base64
import SshKeys.Der.Reader
import SshKeys.FileSystem.Basic
import SshKeys.Wire.Reader

/-!
What can go wrong with keys and key files, and the words for it.
-/

namespace SshKeys

/-- Why a text is no public key. -/
inductive PublicKeyFault where
  | empty
  | missingData
  /-- the key data names another algorithm than the line -/
  | algorithmMismatch (embedded written : Text)
  | noKeyType
  | incomplete
  | emptyFile (path : Text)
  | other (reason : Text)
  deriving DecidableEq, Repr

def PublicKeyFault.message : PublicKeyFault → String
  | .empty => "empty"
  | .missingData => "missing key data"
  | .algorithmMismatch embedded written =>
    "key data is " ++ String.ofList embedded ++ " but line says " ++ String.ofList written
  | .noKeyType => "key type not found"
  | .incomplete => "incomplete"
  | .emptyFile path => String.ofList path ++ " is empty"
  | .other reason => String.ofList reason

/-- Why a text is no private key that can be read. -/
inductive PrivateKeyFault where
  | missingHeader
  | missingFooter
  | badMagic
  | encrypted (cipher : Text)
  | keyCount (count : UInt32)
  | trailingData
  | misaligned
  | checkMismatch
  | unsupportedKeyType (name : Text)
  | badPadding
  | other (reason : Text)
  deriving DecidableEq, Repr

def PrivateKeyFault.message : PrivateKeyFault → String
  | .missingHeader => "missing OpenSSH private key header"
  | .missingFooter => "missing OpenSSH private key footer"
  | .badMagic => "bad magic"
  | .encrypted cipher =>
    "encrypted keys are not supported (" ++ String.ofList cipher ++ ")"
  | .keyCount count => s!"expected 1 key, found {count}"
  | .trailingData => "trailing data after private section"
  | .misaligned => "private section is not block aligned"
  | .checkMismatch => "check-int mismatch"
  | .unsupportedKeyType name => "unsupported key type " ++ String.ofList name
  | .badPadding => "bad padding"
  | .other reason => String.ofList reason

/-- Why generated key material cannot be used. -/
inductive ExportFault where
  | publicKeyLength (actual expected : Nat)
  | seedLength (actual expected : Nat)
  | other (reason : Text)
  deriving DecidableEq, Repr

def ExportFault.message : ExportFault → String
  | .publicKeyLength actual expected =>
    s!"Ed25519 public key is {actual} bytes, expected {expected}"
  | .seedLength actual expected => s!"Ed25519 seed is {actual} bytes, expected {expected}"
  | .other reason => String.ofList reason

inductive KeyError where
  | generationFailed (reason : Text)
  | exportFailed (fault : ExportFault)
  | noSupportedAlgorithm
  | invalidRsaKey (error : Der.Error)
  | wire (error : Wire.Error)
  | invalidPublicKey (fault : PublicKeyFault)
  | invalidPrivateKey (fault : PrivateKeyFault)
  | keyFileExists (path : Text)
  | noHomeDirectory
  | base64 (error : Base64.Error)
  | io (fault : FileSystem.Fault)
  deriving DecidableEq, Repr

def KeyError.message : KeyError → String
  | .generationFailed reason => "Key generation failed: " ++ String.ofList reason
  | .exportFailed fault => "Key export failed: " ++ fault.message
  | .noSupportedAlgorithm => "No supported key algorithm is available on this platform"
  | .invalidRsaKey error => "Invalid RSA private key: " ++ error.message
  | .wire error => "Malformed SSH data: " ++ error.message
  | .invalidPublicKey fault => "Invalid public key format: " ++ fault.message
  | .invalidPrivateKey fault => "Invalid private key: " ++ fault.message
  | .keyFileExists path =>
    "Key file already exists: " ++ String.ofList path ++ " (use --force to overwrite)"
  | .noHomeDirectory => "Could not determine the home directory"
  | .base64 error => "Base64 decoding failed: " ++ error.message
  | .io fault => "I/O error: " ++ fault.message

/-- Base64 text in UTF-8, read as octets. -/
def decodeBase64 (t : Text) : Except KeyError Bytes :=
  (Base64.decode t.utf8).mapError .base64

end SshKeys
