import SshKeys.AuthorizedKeys.File
import SshKeys.CommandLine.Arguments

/-!
The paths that a command may look at or change. A program that works on a real
disk has to know these and no others.
-/

namespace SshKeys.CommandLine

/-- The key files that may be in a directory. -/
def keyFilesIn (directory : Text) : List Text :=
  [KeyType.ed25519, .rsa4096].flatMap fun keyType =>
    let privatePath := KeyFiles.privateKeyPath directory keyType
    [privatePath, KeyFiles.publicPathOf privatePath]

/-- The authorized_keys file of a directory and its copy. -/
def authorizedKeysIn (directory : Text) : List Text :=
  [AuthorizedKeys.path directory, AuthorizedKeys.backupPath directory]

def footprint (home : Option Text) (command : Command) : List Text :=
  let fallback := (KeyFiles.defaultDirectory home).toOption
  let directory (given : Option Text) : List Text := (given.or fallback).toList
  match command with
  | .probe => []
  | .fingerprint file | .inspect file => [file]
  | .authorize file sshDir => file :: (directory sshDir).flatMap authorizedKeysIn
  | .list sshDir _ => (directory sshDir).flatMap authorizedKeysIn
  | .generate o =>
    (directory o.out).flatMap keyFilesIn ++ (directory o.sshDir).flatMap authorizedKeysIn

end SshKeys.CommandLine
