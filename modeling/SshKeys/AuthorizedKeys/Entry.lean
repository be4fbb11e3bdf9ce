import SshKeys.PublicKey

/-!
Lines of an authorized_keys file, as they are read back.

A line is a public key, or options, a space and a public key. A public key is
the name of its algorithm, a space, base64 key data, and a comment after
another space. The key data has to be that of a known algorithm, or of one whose
name belongs to a domain, with nothing after it. `Entry.ofLine?` refuses all
else.

Key data has a canonical form, the fields of the key written as strings after
the name of its algorithm. It is read a little more freely than that: an Ed25519
point may overstate its length, and the two names of RSA signature schemes stand
for RSA keys. An entry holds the canonical form, whatever stood in the line.
-/

namespace SshKeys.AuthorizedKeys

structure Entry where
  options : Text
  key : PublicKey
  deriving DecidableEq, Repr

/-! ### Key data -/

/-- A walk through key data that can only fail or go on. -/
abbrev Scan := OptionT (StateM Wire.Reader)

namespace Scan

def item {α : Type} (read : Wire.Read α) : Scan α :=
  OptionT.mk (Except.toOption <$> read.run)

/-- The longest string in key data. -/
def longestString : Nat :=
  0xFFFFF

/-- The length of a string. -/
def stringLength : Scan Nat := do
  let length := (← item .word).toNat
  guard (length ≤ longestString)
  return length

def string : Scan Bytes := do
  item (.raw (← stringLength))

/-- A string that holds a text. -/
def text : Scan Text := do
  match Text.ofUtf8? (← string) with
  | some t => return t
  | none => failure

/-- Whether an integer is in its shortest form: no zero octet in front, unless it keeps a high bit
apart. -/
def isShortest : Bytes → Bool
  | [0] => false
  | 0 :: x :: _ => 0x80 ≤ x
  | _ => true

def integer : Scan Bytes := do
  let body ← string
  guard (isShortest body)
  return body

/-- Octets in a point of Ed25519. -/
def edwardsLength : Nat :=
  32

/-- A point of Ed25519. The length in front of it has to cover the point and may say more. -/
def edwardsPoint : Scan Bytes := do
  guard (edwardsLength ≤ (← stringLength))
  item (.raw edwardsLength)

/-- The octets in a point of a curve with coordinates of `size` octets, by the first of them: none
after it for the point at infinity, one coordinate after it, or both. -/
def pointLength? (size : Nat) : (tag : UInt8) → Option Nat
  | 0x00 => some 1
  | 0x02 | 0x03 | 0x05 => some (size + 1)
  | 0x04 => some (2 * size + 1)
  | _ => none

def isPoint (size : Nat) (octets : Bytes) : Bool :=
  match octets with
  | [] => false
  | tag :: _ => pointLength? size tag == some octets.length

/-- Whether a point is neither the one at infinity nor one that lacks the parity of its other
coordinate. -/
def isDefinite (octets : Bytes) : Bool :=
  octets.head? != some 0x00 && octets.head? != some 0x05

/-- The name of a curve and a point on a curve of that size. -/
def curvePoint (curve : String) (size : Nat) : Scan (Bytes × Bytes) := do
  let name ← string
  guard (name = Text.utf8 curve.toList)
  let point ← string
  guard (isPoint size point)
  return (name, point)

/-- The fields of an ECDSA key. -/
def ecdsa (curve : String) (size : Nat) : Scan (List Bytes) := do
  let (name, point) ← curvePoint curve size
  guard (isDefinite point)
  return [name, point]

/-- Whether a name is of the form name@domain, in ASCII. -/
def hasDomain (name : Text) : Bool :=
  name.all (·.toNat < 128) &&
    match name.splitOn '@' with
    | [user, domain] => !user.isEmpty && !domain.isEmpty
    | _ => false

/-- The fields of a key of an algorithm. -/
def fields (algorithm : Text) : Scan (List Bytes) :=
  match String.ofList algorithm with
  | "ssh-ed25519" => return [← edwardsPoint]
  | "ssh-rsa" => return [← integer, ← integer]
  | "ssh-dss" => return [← integer, ← integer, ← integer, ← integer]
  | "ecdsa-sha2-nistp256" => ecdsa "nistp256" 32
  | "ecdsa-sha2-nistp384" => ecdsa "nistp384" 48
  | "ecdsa-sha2-nistp521" => ecdsa "nistp521" 66
  | "sk-ssh-ed25519@openssh.com" => return [← edwardsPoint, (← text).utf8]
  | "sk-ecdsa-sha2-nistp256@openssh.com" => do
    let (name, point) ← curvePoint "nistp256" 32
    return [name, point, (← text).utf8]
  | _ => do
    guard (hasDomain algorithm)
    return [← string]

/-- The algorithm of the keys that a name stands for. -/
def algorithmOf (name : Text) : Text :=
  match String.ofList name with
  | "rsa-sha2-256" | "rsa-sha2-512" => "ssh-rsa".toList
  | _ => name

/-- The longest name of an algorithm. -/
def longestName : Nat :=
  48

/-- A key up to the end of its data: its algorithm and its fields. -/
def key : Scan (Text × List Bytes) := do
  let name ← text
  guard (name.utf8.length ≤ longestName)
  let algorithm := algorithmOf name
  let fields ← fields algorithm
  guard (← get).isEmpty
  return (algorithm, fields)

end Scan

/-- The canonical key data of a key. -/
def canonicalData (algorithm : Text) (fields : List Bytes) : Bytes :=
  Wire.encode (.text algorithm :: fields.map .string)

/-- The algorithm and the fields of a key in well-formed data. -/
def readKey? (data : Bytes) : Option (Text × List Bytes) :=
  (Scan.key.run.run (.start data)).1

/-! ### Lines -/

/-- The characters of names and of base64. -/
def isSegmentChar (c : Char) : Bool :=
  c.isAlphanum || c == '+' || c == '-' || c == '/' || c == '=' || c == '@' || c == '.'

/-- A run of such characters, not empty, up to a space or the end. -/
def segment? (t : Text) : Option (Text × Text) :=
  match t.span isSegmentChar with
  | ([], _) => none
  | (run, []) => some (run, [])
  | (run, ' ' :: rest) => some (run, rest)
  | _ => none

/-- The public key in a line, with its data in canonical form. -/
def publicKey? (t : Text) : Option PublicKey := do
  let (algorithm, rest) ← segment? t.trimRight
  let (encoded, comment) ← segment? rest
  let data ← (Base64.decode (Text.utf8 encoded)).toOption
  let (embedded, fields) ← readKey? data
  guard (embedded = algorithm)
  return ⟨algorithm, canonicalData algorithm fields, Text.trimRight comment⟩

/-- The characters of options. -/
def isOptionChar (c : Char) : Bool :=
  let n := c.toNat
  (0x21 ≤ n && n ≤ 0x5F) || (0x61 ≤ n && n ≤ 0x7E)

/-- Options up to the first space, and a public key after it. -/
def optionsAndKey? (line : Text) : Option Entry :=
  match line.span (· != ' ') with
  | (options, ' ' :: rest) =>
    if options.all isOptionChar then (publicKey? rest).map fun key => ⟨options, key⟩ else none
  | _ => none

/-- The entry that a line holds. Options are looked for only if the line has three spaces or
more. -/
def Entry.ofLine? (line : Text) : Option Entry :=
  let spaces := line.count ' '
  if spaces = 0 then none
  else
    let bare := (publicKey? line).map fun key => ⟨[], key⟩
    if spaces ≤ 2 then bare else bare.or (optionsAndKey? line)

end SshKeys.AuthorizedKeys
