import SshKeys.Wire.Item

/-!
Reading items back.

A reader holds the octets that are left and how many went before. A read that
finds too little fails, and the reader stays usable: it keeps its place, except
that the length in front of a string counts as read once it has been read, and
a string that is no UTF-8 counts as read altogether.
-/

namespace SshKeys.Wire

/-- Why a read fails. -/
inductive Error where
  | truncated (needed available : Nat)
  | invalidUtf8
  deriving DecidableEq, Repr

def Error.message : Error → String
  | .truncated needed available =>
    s!"unexpected end of data: needed {needed} bytes, {available} available"
  | .invalidUtf8 => "string is not valid UTF-8"

structure Reader where
  /-- octets already read -/
  position : Nat
  /-- octets not yet read -/
  remaining : Bytes
  deriving DecidableEq, Repr

namespace Reader

def start (data : Bytes) : Reader :=
  ⟨0, data⟩

def isEmpty (r : Reader) : Bool :=
  r.remaining.isEmpty

/-- The reader after `count` more octets. -/
def advance (r : Reader) (count : Nat) : Reader :=
  ⟨r.position + count, r.remaining.drop count⟩

end Reader

/-- A read: it moves the reader also when it fails. -/
abbrev Read := ExceptT Error (StateM Reader)

namespace Read

/-- Exactly `length` octets. -/
def raw (length : Nat) : Read Bytes := do
  let r ← get
  if r.remaining.length < length then
    throw (.truncated length r.remaining.length)
  set (r.advance length)
  return r.remaining.take length

def word : Read UInt32 := do
  return UInt32.ofNat (Bytes.toNat (← raw 4))

/-- The octets of a string. -/
def bytes : Read Bytes := do
  raw (← word).toNat

/-- A string that holds a text. -/
def text : Read Text := do
  match Text.ofUtf8? (← bytes) with
  | some t => return t
  | none => throw .invalidUtf8

/-- A multiple-precision integer without the zero octet that only pads its sign. -/
def mpint : Read Bytes := do
  match ← bytes with
  | 0 :: x :: rest => return x :: rest
  | body => return body

end Read

/-! ### Reads as data -/

/-- One thing asked of a reader. -/
inductive Request where
  | raw (length : Nat)
  | word
  | bytes
  | text
  | mpint
  deriving DecidableEq, Repr

/-- What a read returns. -/
inductive Value where
  | bytes (data : Bytes)
  | word (value : UInt32)
  | text (value : Text)
  deriving DecidableEq, Repr

def Request.read : Request → Read Value
  | .raw length => .bytes <$> Read.raw length
  | .word => .word <$> Read.word
  | .bytes => .bytes <$> Read.bytes
  | .text => .text <$> Read.text
  | .mpint => .bytes <$> Read.mpint

/-- The answer of one request, and the reader after it. -/
def Reader.step (r : Reader) (q : Request) : Except Error Value × Reader :=
  q.read.run.run r

/-- The answers of requests one after the other, whether or not some fail. -/
def Reader.steps (r : Reader) : List Request → List (Except Error Value × Reader)
  | [] => []
  | q :: more =>
    let answer := r.step q
    answer :: answer.2.steps more

/-- The request that reads an item back. -/
def Item.request : Item → Request
  | .word _ => .word
  | .raw data => .raw data.length
  | .string _ => .bytes
  | .text _ => .text
  | .mpint _ => .mpint

/-! ### What a read does -/

namespace Read

theorem run_raw (length : Nat) (r : Reader) :
    (raw length).run.run r =
      if r.remaining.length < length then
        (.error (.truncated length r.remaining.length), r)
      else (.ok (r.remaining.take length), r.advance length) := by
  show (if r.remaining.length < length then _ else _ : Read Bytes).run.run r = _
  split <;> rfl

theorem run_bind {ε α β : Type} (x : ExceptT ε (StateM Reader) α)
    (f : α → ExceptT ε (StateM Reader) β) (r : Reader) :
    (x >>= f).run.run r =
      match x.run.run r with
      | (.ok a, r') => (f a).run.run r'
      | (.error e, r') => (.error e, r') := by
  rw [ExceptT.run_bind, StateT.run_bind]
  rcases x.run.run r with ⟨a | a, r'⟩ <;> rfl

end Read

end SshKeys.Wire
