import SshKeys.CommandLine.Generate

/-!
The commands. `Command.start` runs a command to its end or to the question that
it asks, `Command.run` also answers the question, with the first line of a text.
-/

namespace SshKeys.CommandLine

/-- How much is logged, by the number of `v` among the arguments. -/
def logLevel : (verbosity : Nat) → String
  | 0 => "warn"
  | 1 => "info"
  | 2 => "debug"
  | _ => "trace"

def probe (env : Environment) : Run Unit :=
  let supported := env.generator.offersEd25519
  let keyType : KeyType := if supported then .ed25519 else .rsa4096
  let verdict := if supported then Paint.green.apply env.color "supported".toList
    else Paint.yellow.apply env.color "not supported".toList
  Run.writeLines [
    "Ed25519: ".toList ++ verdict,
    "New keys will be ".toList ++ Paint.bold.apply env.color keyType.name ++ " (".toList ++
      keyType.fileName ++ [')']]

/-- The line that `fingerprint` writes. -/
def fingerprintLine (env : Environment) (key : PublicKey) : Text :=
  let comment := if key.comment = [] then Paint.dimmed.apply env.color "no comment".toList
    else key.comment
  Paint.bold.apply env.color key.fingerprint ++ ' ' :: comment ++ " (".toList ++
    Paint.cyan.apply env.color key.algorithm ++ [')']

def fingerprint (env : Environment) (file : Text) : Run Unit := do
  let text ← Run.look (KeyFiles.firstKeyLine · file)
  Run.writeLine (fingerprintLine env (← PublicKey.parse text))

def decimalText (n : Nat) : Text :=
  (Text.decimal n).toList

/-- What `inspect` writes about the fields: sizes, and nothing of what is secret. -/
def fieldLines : KeyMaterial → List Text
  | .ed25519 point secret => [
      "Public key:     ".toList ++ decimalText point.length ++ " bytes".toList,
      "Private key:    ".toList ++ decimalText secret.length ++ " bytes (seed + public)".toList]
  | .rsa n e _ _ _ _ => [
      "Modulus:        ~".toList ++ decimalText ((n.dropWhile (· == 0)).length * 8) ++
        " bits".toList,
      "Exponent:       ".toList ++ decimalText e.length ++ " bytes".toList,
      "Private fields: d, iqmp, p, q".toList]

/-- What `inspect` writes about a container. -/
def inspection (env : Environment) (file : Text) (key : PrivateKey) : List Text :=
  [Paint.boldCyan.apply env.color ("=== ".toList ++ file ++ " ===".toList),
    "Cipher / KDF:   ".toList ++ key.cipher ++ " / ".toList ++ key.kdf,
    "Key type:       ".toList ++ key.keyType,
    "Fingerprint:    ".toList ++ PublicKey.fingerprintOf key.publicData,
    "Comment:        ".toList ++ key.comment,
    "Check-ints:     ".toList ++
      (if key.checkInts.1 = key.checkInts.2 then Paint.green.apply env.color "match".toList
        else Paint.red.apply env.color "mismatch".toList),
    "Padding:        ".toList ++ decimalText key.padding.length ++ " bytes".toList] ++
    fieldLines key.fields

def inspect (env : Environment) (file : Text) : Run Unit := do
  let text ← Run.look fun fs => (fs.readText file).mapError .io
  Run.writeLines (inspection env file (← PrivateKey.decode text))

def authorize (env : Environment) (file : Text) (sshDir : Option Text) : Run Unit := do
  let publicKey ← Run.look (KeyFiles.firstKeyLine · file)
  let directory ← Run.directory env sshDir
  match ← Run.change (AuthorizedKeys.add directory publicKey) with
  | .added =>
    Run.writeLine
      (Paint.green.apply env.color "Added to".toList ++ ' ' :: AuthorizedKeys.path directory)
  | .alreadyPresent =>
    Run.writeLine (Paint.yellow.apply env.color "Key is already authorized.".toList)

/-- The lines of a listing, numbered from `number` on. -/
def listingLines (env : Environment) :
    (number : Nat) → List AuthorizedKeys.ListedKey → List Text
  | _, [] => []
  | number, key :: more =>
    ("  ".toList ++ Paint.cyan.apply env.color ('[' :: decimalText number ++ [']']) ++
      ' ' :: key.keyType ++ ' ' :: Paint.bold.apply env.color key.fingerprint ++
      ' ' :: Paint.dimmed.apply env.color key.comment) :: listingLines env (number + 1) more

/-- What `list` writes. -/
def listing (env : Environment) (directory : Text) (json : Bool)
    (keys : List AuthorizedKeys.ListedKey) : List Text :=
  if json then [(Text.Record.prettyList (keys.map (·.record))).toList]
  else if keys = [] then ["No managed keys in ".toList ++ AuthorizedKeys.path directory]
  else Paint.boldCyan.apply env.color "Managed keys:".toList :: [] :: listingLines env 1 keys

def list (env : Environment) (sshDir : Option Text) (json : Bool) : Run Unit := do
  let directory ← Run.directory env sshDir
  let keys ← Run.look (AuthorizedKeys.list · directory)
  Run.writeLines (listing env directory json keys)

namespace Command

/-- Runs a command to its end, or to the question that it asks. -/
def start (env : Environment) : Command → Run (Option Generate.Question)
  | .generate options => Generate.start env options
  | .probe => do CommandLine.probe env; return none
  | .fingerprint file => do CommandLine.fingerprint env file; return none
  | .inspect file => do CommandLine.inspect env file; return none
  | .authorize file sshDir => do CommandLine.authorize env file sshDir; return none
  | .list sshDir json => do CommandLine.list env sshDir json; return none

/-- Runs a command whose question is answered by the first line of `input`. -/
def run (env : Environment) (input : Text) (command : Command) : Run Unit := do
  match ← start env command with
  | none => return
  | some question => Generate.answered env question (input.takeWhile (· != '\n'))

end Command

/-- The outcome of a command line. -/
inductive Outcome where
  | refused (error : UsageError)
  | failed (error : KeyError)
  | done
  deriving DecidableEq, Repr

/-- Parses and runs a command line. Nothing is run if the arguments are refused. -/
def runArguments (env : Environment) (input : Text) (arguments : List Text) (files : FileSystem) :
    Outcome × Console :=
  match parse arguments with
  | .error e => (.refused e, ⟨files, []⟩)
  | .ok invocation =>
    match (invocation.command.run env input).run.run ⟨files, []⟩ with
    | (.ok _, console) => (.done, console)
    | (.error e, console) => (.failed e, console)

end SshKeys.CommandLine
