import SshKeys.Der.Element
import SshKeys.Text.Basic

/-!
Reading DER elements at an offset of a buffer.

Short lengths and long lengths of one to four octets are understood, minimal or
not. The offset in an error is that of the octet that is missing or wrong; when
contents run past the end it is where they begin, or the end of the buffer if
that comes first.
-/

namespace SshKeys.Der

inductive Error where
  | truncated (offset : Nat)
  | unexpectedTag (offset : Nat) (expected found : UInt8)
  | invalidLength (offset : Nat)
  deriving DecidableEq, Repr

def Error.message : Error → String
  | .truncated offset => s!"unexpected end of DER data at offset {offset}"
  | .unexpectedTag offset expected found =>
    "expected tag 0x" ++ Text.hexOctet expected ++ s!" at offset {offset}, found 0x" ++
      Text.hexOctet found
  | .invalidLength offset => s!"unsupported DER length encoding at offset {offset}"

/-- Where the contents of an element begin, and how long they say they are. -/
structure Header where
  start : Nat
  length : Nat
  deriving DecidableEq, Repr

/-- The offset after the contents. -/
def Header.stop (h : Header) : Nat :=
  h.start + h.length

/-- The octets `data[start]` to `data[start + length - 1]`, all of them. -/
def slice (data : Bytes) (start length : Nat) : Except Error Bytes :=
  if start + length ≤ data.length then .ok ((data.drop start).take length)
  else .error (.truncated (min data.length start))

/-- The octet at an offset. -/
def octetAt (data : Bytes) (offset : Nat) : Except Error UInt8 :=
  match data[offset]? with
  | some x => .ok x
  | none => .error (.truncated offset)

/-- Checks the tag at `offset` and reads the length that follows. -/
def headerAt (data : Bytes) (offset : Nat) (expected : UInt8) : Except Error Header := do
  let found ← octetAt data offset
  if found ≠ expected then
    throw (.unexpectedTag offset expected found)
  let first ← octetAt data (offset + 1)
  if first < 0x80 then
    return ⟨offset + 2, first.toNat⟩
  let octets := first.toNat - 128
  if octets = 0 ∨ 4 < octets then
    throw (.invalidLength (offset + 1))
  return ⟨offset + 2 + octets, Bytes.toNat (← slice data (offset + 2) octets)⟩

/-- An INTEGER read from a buffer. -/
structure Integer where
  /-- the contents as they stand, with the octet that pads the sign -/
  value : Bytes
  /-- the offset after it -/
  next : Nat
  deriving DecidableEq, Repr

def integerAt (data : Bytes) (offset : Nat) : Except Error Integer := do
  let header ← headerAt data offset integerTag
  return ⟨← slice data header.start header.length, header.stop⟩

end SshKeys.Der
