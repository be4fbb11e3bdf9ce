import SshKeys.FileSystem.Change
import SshKeys.KeyPair

/-!
Key files in a directory: the private key under the usual name of its type, for
its owner only, and the public key beside it, for all to read. The directory is
for its owner only.
-/

namespace SshKeys.KeyFiles

open FileSystem

def directoryMode : Mode := 0o700

def privateKeyMode : Mode := 0o600

def publicKeyMode : Mode := 0o644

/-- The directory for keys in a home directory. -/
def defaultDirectory (home : Option Text) : Except KeyError Text :=
  match home with
  | some home => .ok (Path.join home ".ssh".toList)
  | none => .error .noHomeDirectory

/-- The file of the public key that belongs to a private key file. -/
def publicPathOf (privateKeyPath : Text) : Text :=
  privateKeyPath ++ ".pub".toList

def privateKeyPath (directory : Text) (keyType : KeyType) : Text :=
  Path.join directory keyType.fileName

/-- Makes the directory if nothing has its name, and closes it to all but the owner. -/
def secureDirectory (directory : Text) : Change Unit := do
  unless (← get).holds directory do
    Change.settleAll directory
  let node ← Change.look (·.stat directory)
  if node.mode &&& accessBits ≠ directoryMode then
    Change.act (.setMode directory directoryMode)

/-- The steps that write a key file. A new file has its mode from the first step on, a file that
was there before keeps its own until the last. -/
def writeSteps (path : Text) (contents : Bytes) (mode : Mode) : List Action :=
  [.openTruncated path mode, .append path contents, .setMode path mode]

structure SavedPaths where
  privateKey : Text
  publicKey : Text
  deriving DecidableEq, Repr

/-- The text of a public key file. -/
def publicKeyFile (pair : KeyPair) : Text :=
  pair.publicKey ++ ['\n']

/-- The first of the paths that names something. -/
def firstTaken (fs : FileSystem) (paths : List Text) : Option Text :=
  paths.find? fs.holds

/-- Writes both halves of a pair. Without `overwrite`, a half that is there already stops it before
anything is changed. -/
def save (directory : Text) (pair : KeyPair) (overwrite : Bool) : Change SavedPaths := do
  let privatePath := privateKeyPath directory pair.keyType
  let publicPath := publicPathOf privatePath
  if let (false, some taken) := (overwrite, firstTaken (← get) [privatePath, publicPath]) then
    throw (.keyFileExists taken)
  secureDirectory directory
  Change.actAll (writeSteps privatePath pair.privateKey.utf8 privateKeyMode)
  Change.actAll (writeSteps publicPath (publicKeyFile pair).utf8 publicKeyMode)
  return ⟨privatePath, publicPath⟩

/-- The first line of a public key file that is not blank, trimmed. -/
def firstKeyLine (fs : FileSystem) (path : Text) : Except KeyError Text := do
  let text ← (fs.readText path).mapError .io
  match (text.lines.map Text.trim).find? (fun l => !l.isEmpty) with
  | some line => return line
  | none => throw (.invalidPublicKey (.emptyFile path))

end SshKeys.KeyFiles
