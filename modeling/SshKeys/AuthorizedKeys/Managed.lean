import SshKeys.PublicKey

/-!
Managed entries: lines of an authorized_keys file that restrict what a key may
do and carry a marker in their comment.

`ManagedEntry.ofText` takes a public key as words. The first word that begins
like a key type starts the key; a first word before it holds options, and what
stands between is dropped. Options are kept and get the restriction in front
unless they have it already.
-/

namespace SshKeys.AuthorizedKeys

/-- The word in the comment of a managed entry. -/
def marker : Text :=
  "ssh-keypair".toList

/-- The option that takes all permissions away. -/
def restriction : Text :=
  "restrict".toList

/-- The options of an entry that has none of its own. -/
def defaultOptions : Text :=
  "restrict,pty".toList

/-- How key types begin. -/
def typeStart : Text :=
  "ssh-".toList

/-- Options with the restriction among them. It is looked for between any two commas. -/
def restrictedOptions (options : Text) : Text :=
  if (options.splitOn ',').contains restriction then options
  else defaultOptions ++ ',' :: options

/-- Comment words with the marker among them. -/
def markedWords (words : List Text) : List Text :=
  if words.any fun w => Text.contains w marker then words else words ++ [marker]

/-- A line of an authorized_keys file, and the fingerprint of its key. -/
structure ManagedEntry where
  line : Text
  fingerprint : Text
  deriving DecidableEq, Repr

def ManagedEntry.ofText (text : Text) : Except KeyError ManagedEntry := do
  let words := text.words
  let first :: _ := words
    | throw (.invalidPublicKey .empty)
  let before := words.takeWhile fun w => !typeStart.isPrefixOf w
  let options := if before = [] then defaultOptions else restrictedOptions first
  match words.drop before.length with
  | [] => throw (.invalidPublicKey .noKeyType)
  | [_] => throw (.invalidPublicKey .incomplete)
  | keyType :: data :: comment =>
    let key ← PublicKey.parse (Text.join [' '] [keyType, data])
    return {
      line := Text.join [' '] (options :: keyType :: data :: markedWords comment)
      fingerprint := key.fingerprint }

end SshKeys.AuthorizedKeys
