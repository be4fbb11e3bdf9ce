import SshKeys.AuthorizedKeys.File
import SshKeys.CommandLine.Arguments
import SshKeys.CommandLine.Console

/-!
The `generate` command.

It has one place at which it may have to ask: when a key file is in the way and
nothing says that it may be overwritten. `start` runs up to there, and returns
the question if there is one; `answered` goes on with the answer. Printed keys
go to no key file.
-/

namespace SshKeys.CommandLine.Generate

/-- A pair that waits for permission to overwrite. -/
structure Question where
  options : GenerateRequest
  directory : Text
  pair : KeyPair

/-- The key files of this type that are in a directory, public key first. -/
def existing (fs : FileSystem) (directory : Text) (keyType : KeyType) : List Text :=
  let privatePath := KeyFiles.privateKeyPath directory keyType
  [KeyFiles.publicPathOf privatePath, privatePath].filter fs.holds

/-- Adds the public key to an authorized_keys file if that is wanted. -/
def authorize (env : Environment) (o : GenerateRequest) (pair : KeyPair) :
    Run (Option (AuthorizedKeys.Outcome × Text)) := do
  if !o.authorize then return none
  let directory ← Run.directory env o.sshDir
  let outcome ← Run.change (AuthorizedKeys.add directory pair.publicKey)
  return some (outcome, directory)

/-- The pair itself, for `--print`. -/
def printed (pair : KeyPair) (json : Bool) : Text :=
  if json then pair.record.pretty.toList ++ ['\n']
  else pair.privateKey ++ pair.publicKey ++ ['\n']

/-- What is said about the authorized_keys file, or about how to get the key into one. -/
def lastLine (env : Environment) (saved : KeyFiles.SavedPaths) :
    Option (AuthorizedKeys.Outcome × Text) → Text
  | some (.added, directory) =>
    Paint.green.apply env.color "Authorized in".toList ++ ' ' :: AuthorizedKeys.path directory
  | some (.alreadyPresent, _) =>
    Paint.yellow.apply env.color "Key is already authorized.".toList
  | none =>
    "To allow this key to log in here, run: ".toList ++
      Paint.cyan.apply env.color ("ssh-keypair authorize ".toList ++ saved.publicKey)

/-- What is said when the files are written. -/
def report (env : Environment) (saved : KeyFiles.SavedPaths) (pair : KeyPair) (fingerprint : Text)
    (authorized : Option (AuthorizedKeys.Outcome × Text)) : List Text :=
  let rule := Paint.dimmed.apply env.color (List.replicate 60 '─')
  [[],
    "Private key: ".toList ++ Paint.cyan.apply env.color saved.privateKey,
    "Public key:  ".toList ++ Paint.cyan.apply env.color saved.publicKey,
    "Fingerprint: ".toList ++ Paint.bold.apply env.color fingerprint,
    [],
    rule,
    pair.publicKey,
    rule,
    [],
    lastLine env saved authorized]

/-- Writes the files, and says so. -/
def finish (env : Environment) (o : GenerateRequest) (directory : Text) (pair : KeyPair) :
    Run Unit := do
  let saved ← Run.change (KeyFiles.save directory pair true)
  let authorized ← authorize env o pair
  let key ← PublicKey.parse pair.publicKey
  Run.writeLines (report env saved pair key.fingerprint authorized)

def warning (env : Environment) (path : Text) : Text :=
  Paint.boldYellow.apply env.color "Warning:".toList ++ ' ' :: path ++ " already exists.".toList

/-- Runs up to the question whether to overwrite, or to the end if there is none. -/
def start (env : Environment) (o : GenerateRequest) : Run (Option Question) := do
  if !o.print then
    Run.write (Paint.cyan.apply env.color "Generating SSH key pair... ".toList)
  let generator := if o.rsa then env.generator.rsaOnly else env.generator
  let pair ← KeyPair.generate generator o.comment env.check
  if o.print then
    let _ ← authorize env o pair
    Run.write (printed pair o.json)
    return none
  Run.writeLine
    (Paint.green.apply env.color "done".toList ++ " (".toList ++ pair.keyType.name ++ [')'])
  if pair.keyType = .rsa4096 ∧ !o.rsa then
    Run.writeLine (Paint.boldYellow.apply env.color "Note:".toList ++
      " Ed25519 is unavailable, an RSA-4096 key was generated instead.".toList)
  let directory ← Run.directory env o.out
  let inTheWay := existing (← get).files directory pair.keyType
  if inTheWay = [] ∨ o.force then
    finish env o directory pair
    return none
  Run.writeLines (inTheWay.map (warning env))
  Run.write "Overwrite? [y/N] ".toList
  return some ⟨o, directory, pair⟩

/-- Whether an answer is yes, in letters of either case. -/
def isYes (answer : Text) : Bool :=
  let word := (Text.trim answer).map Char.toLower
  word == "y".toList || word == "yes".toList

/-- Goes on with the answer. -/
def answered (env : Environment) (q : Question) (answer : Text) : Run Unit :=
  if isYes answer then finish env q.options q.directory q.pair
  else Run.writeLine "Cancelled.".toList

end SshKeys.CommandLine.Generate
