import SshKeys.AuthorizedKeys.Entry
import SshKeys.AuthorizedKeys.Managed
import SshKeys.KeyFiles

/-!
The authorized_keys file of a directory: listing its managed entries and adding
to them.

Listing goes line by line and passes over every line that is not a managed
entry. Adding appends one line, never twice for the same key, and copies the
file first.
-/

namespace SshKeys.AuthorizedKeys

open FileSystem

/-- The authorized_keys file of a directory. -/
def path (directory : Text) : Text :=
  Path.join directory "authorized_keys".toList

/-- The copy of the file before its last change. -/
def backupPath (directory : Text) : Text :=
  path directory ++ ".bak".toList

def fileMode : Mode := 0o600

/-! ### Listing -/

/-- A managed key, without key data. -/
structure ListedKey where
  keyType : Text
  fingerprint : Text
  comment : Text
  deriving DecidableEq, Repr

def ListedKey.record (key : ListedKey) : Text.Record :=
  [("key_type", key.keyType), ("fingerprint", key.fingerprint), ("comment", key.comment)]

/-- The managed key on a line, if there is one. -/
def managedKey? (line : Text) : Option ListedKey := do
  let trimmed := line.trim
  guard (trimmed ≠ [] ∧ trimmed.head? ≠ some '#' ∧ Text.contains trimmed marker)
  let entry ← Entry.ofLine? trimmed
  guard (Text.contains entry.key.comment marker)
  return ⟨entry.key.algorithm, entry.key.fingerprint, entry.key.comment⟩

/-- The managed keys in the text of a file. -/
def managedKeys (text : Text) : List ListedKey :=
  text.lines.filterMap managedKey?

/-- The managed keys of a directory. A file that is not there lists none. -/
def list (fs : FileSystem) (directory : Text) : Except KeyError (List ListedKey) := do
  if !fs.holds (path directory) then
    return []
  return managedKeys (← (fs.readText (path directory)).mapError .io)

/-! ### Adding -/

inductive Outcome where
  | added
  | alreadyPresent
  deriving DecidableEq, Repr

/-- Whether the file lists a key with this fingerprint. A file that cannot be read lists none. -/
def lists (fs : FileSystem) (directory fingerprint : Text) : Bool :=
  match list fs directory with
  | .ok keys => keys.any (·.fingerprint == fingerprint)
  | .error _ => false

/-- What is appended for a new line: a newline too if the last line lacks its own. -/
def appended (contents : Bytes) (line : Text) : Bytes :=
  let start := match contents.getLast? with
    | none => []
    | some last => if last = 10 then [] else [10]
  start ++ Text.utf8 (line ++ ['\n'])

/-- Adds a line at the end of the file, after a copy of the file has been made. -/
def addLine (directory line : Text) : Change Unit := do
  if (← get).holds (path directory) then
    Change.act (.copy (path directory) (backupPath directory))
  Change.act (.openAppending (path directory))
  let contents ← Change.look (·.read (path directory))
  Change.act (.append (path directory) (appended contents line))
  Change.act (.setMode (path directory) fileMode)

/-- Adds a public key as a managed entry, unless it is listed already. -/
def add (directory publicKey : Text) : Change Outcome := do
  let entry ← ManagedEntry.ofText publicKey
  KeyFiles.secureDirectory directory
  if lists (← get) directory entry.fingerprint then
    return .alreadyPresent
  addLine directory entry.line
  return .added

/-- Generates a pair and adds its public key. The private key is written nowhere. -/
def addNew {m : Type → Type} [Monad m] (generator : GeneratorIn m)
    (directory comment : Text) (check : UInt32) : m (Change (KeyPair × Outcome)) := do
  match ← KeyPair.generateIn generator comment check with
  | .error e => return throw e
  | .ok pair => return do
    let outcome ← add directory pair.publicKey
    return (pair, outcome)

end SshKeys.AuthorizedKeys
