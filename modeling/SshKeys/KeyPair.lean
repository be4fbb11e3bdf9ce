import SshKeys.Ed25519.Key
import SshKeys.Rsa.Key
import SshKeys.Rsa.PrivateKeyInfo
import SshKeys.Secret
import SshKeys.Text.Record

/-!
Key pairs in text form, and how they come about.

A generator answers for a key type with exported key material, with
"unsupported", or with an error. `generate` asks it for Ed25519 and falls back
to RSA once, only when Ed25519 is unsupported. `generateIn` is the same for any
monad, so that the questions asked of a generator can be observed.
-/

namespace SshKeys

inductive KeyType where
  | ed25519
  | rsa4096
  deriving DecidableEq, Repr

namespace KeyType

def name : KeyType → Text
  | .ed25519 => "Ed25519".toList
  | .rsa4096 => "RSA-4096".toList

/-- The usual name of a private key file. -/
def fileName : KeyType → Text
  | .ed25519 => "id_ed25519".toList
  | .rsa4096 => "id_rsa".toList

/-- The algorithm in public key lines and containers. -/
def algorithm : KeyType → Text
  | .ed25519 => Ed25519.algorithm
  | .rsa4096 => Rsa.algorithm

end KeyType

/-- A public key line and an armored private key. -/
structure KeyPair where
  publicKey : Text
  privateKey : Text
  keyType : KeyType
  deriving DecidableEq, Repr

namespace KeyPair

def record (pair : KeyPair) : Text.Record :=
  [("publicKey", pair.publicKey), ("privateKey", pair.privateKey),
    ("keyType", pair.keyType.name)]

/-- The pair without its private key. -/
def description (pair : KeyPair) : String :=
  let keyType := match pair.keyType with
    | .ed25519 => "Ed25519"
    | .rsa4096 => "Rsa4096"
  Text.Quoted.description "SshKeyPair"
    [("public_key", Text.Quoted.shown pair.publicKey), ("private_key", Text.Quoted.redacted),
      ("key_type", keyType)]

end KeyPair

/-! ### Generators -/

/-- Key material as a generator exports it: a public key and a seed for Ed25519, a
SubjectPublicKeyInfo and a PrivateKeyInfo for RSA. -/
structure ExportedPair where
  publicKey : Bytes
  privateKey : Secret

/-- What a generator answers when it is asked for a key of some type. -/
inductive Answer where
  | pair (exported : ExportedPair)
  /-- keys of this type are not to be had, which is no failure -/
  | unsupported
  | failed (error : KeyError)

def Answer.isPair : Answer → Bool
  | .pair _ => true
  | _ => false

/-- A generator whose questions take place in `m`. -/
abbrev GeneratorIn (m : Type → Type) := KeyType → m Answer

/-- A generator that answers without further ado. -/
abbrev Generator := KeyType → Answer

namespace Generator

/-- The same generator, but Ed25519 is unsupported. -/
def rsaOnly (generator : Generator) : Generator
  | .ed25519 => .unsupported
  | .rsa4096 => generator .rsa4096

def pureIn (generator : Generator) : GeneratorIn Id :=
  fun keyType => pure (generator keyType)

/-- The same generator, which also takes down what it is asked, in order. -/
def recorded (generator : Generator) : GeneratorIn (StateM (List KeyType)) := fun keyType => do
  modify (· ++ [keyType])
  return generator keyType

end Generator

namespace KeyPair

/-- The texts of exported Ed25519 material. -/
def ofEd25519 (exported : ExportedPair) (comment : Text) (check : UInt32) :
    Except KeyError KeyPair :=
  let point := exported.publicKey
  let seed := exported.privateKey.octets
  if hp : point.length = Ed25519.keyLength then
    if hs : seed.length = Ed25519.keyLength then
      .ok {
        publicKey := (Ed25519.publicKey ⟨point, hp⟩ comment).line
        privateKey := Ed25519.privateKeyText ⟨seed, hs⟩ ⟨point, hp⟩ comment check
        keyType := .ed25519 }
    else .error (.exportFailed (.seedLength seed.length Ed25519.keyLength))
  else .error (.exportFailed (.publicKeyLength point.length Ed25519.keyLength))

/-- The texts of exported RSA material. Only the PrivateKeyInfo is looked at. -/
def ofRsa (exported : ExportedPair) (comment : Text) (check : UInt32) :
    Except KeyError KeyPair := do
  let key ← (Rsa.PrivateKeyInfo.parse exported.privateKey.octets).mapError .invalidRsaKey
  return {
    publicKey := (Rsa.publicKey key.n key.e comment).line
    privateKey := Rsa.privateKeyText key comment check
    keyType := .rsa4096 }

variable {m : Type → Type} [Monad m]

/-- Asks for Ed25519, and for RSA if that is unsupported. -/
def generateIn (generator : GeneratorIn m) (comment : Text) (check : UInt32) :
    m (Except KeyError KeyPair) := do
  match ← generator .ed25519 with
  | .failed e => return .error e
  | .pair exported => return ofEd25519 exported comment check
  | .unsupported =>
    match ← generator .rsa4096 with
    | .failed e => return .error e
    | .pair exported => return ofRsa exported comment check
    | .unsupported => return .error .noSupportedAlgorithm

def generate (generator : Generator) (comment : Text) (check : UInt32) :
    Except KeyError KeyPair :=
  Id.run (generateIn generator.pureIn comment check)

end KeyPair

/-- Whether a generator offers Ed25519 keys. A failure counts as no. -/
def offersEd25519In {m : Type → Type} [Monad m] (generator : GeneratorIn m) : m Bool := do
  return (← generator .ed25519).isPair

def Generator.offersEd25519 (generator : Generator) : Bool :=
  Id.run (offersEd25519In generator.pureIn)

end SshKeys
