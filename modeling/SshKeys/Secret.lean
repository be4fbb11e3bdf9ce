import SshKeys.Text.Quoted

/-!
Exported private key material. Its description tells its length and nothing
else.
-/

namespace SshKeys

structure Secret where
  octets : Bytes

namespace Secret

def length (s : Secret) : Nat :=
  s.octets.length

def isEmpty (s : Secret) : Bool :=
  s.octets.isEmpty

def description (s : Secret) : String :=
  Text.Quoted.description "SecureBytes"
    [("len", Text.decimal s.length), ("data", Text.Quoted.redacted)]

end Secret

end SshKeys
