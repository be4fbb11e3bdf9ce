import SshKeys.Bytes

/-!
Writing DER elements: a tag, a length, the contents.

A length below 128 may be a single octet. Any length may also be written as a
count of octets and the octets of the number; `LengthForm.shortest` is the one
form that the distinguished encoding allows, the others occur in the wild.
-/

namespace SshKeys.Der

def integerTag : UInt8 := 0x02

def bitStringTag : UInt8 := 0x03

def octetStringTag : UInt8 := 0x04

def sequenceTag : UInt8 := 0x30

/-- How a length is written. -/
inductive LengthForm where
  | short
  | long (octets : Nat)
  deriving DecidableEq, Repr

namespace LengthForm

def encode : LengthForm → Nat → Bytes
  | .short, length => [UInt8.ofNat length]
  | .long octets, length => UInt8.ofNat (128 + octets) :: Bytes.ofNat octets length

/-- The shortest form for a length. -/
def shortest (length : Nat) : LengthForm :=
  if length < 128 then .short else .long (Bytes.ofNatMinimal length).length

end LengthForm

/-- An element whose length is written in a given form. -/
def elementWith (form : LengthForm) (tag : UInt8) (contents : Bytes) : Bytes :=
  tag :: form.encode contents.length ++ contents

/-- An element in its distinguished form. -/
def element (tag : UInt8) (contents : Bytes) : Bytes :=
  elementWith (.shortest contents.length) tag contents

def sequence (parts : List Bytes) : Bytes :=
  element sequenceTag parts.flatten

/-- The contents of a non-negative INTEGER: no more octets than needed, and a high bit that is not
a sign is kept apart by a zero octet. -/
def integerContents (n : Nat) : Bytes :=
  match Bytes.ofNatMinimal n with
  | [] => [0]
  | first :: rest => if 0x80 ≤ first then 0 :: first :: rest else first :: rest

def integer (n : Nat) : Bytes :=
  element integerTag (integerContents n)

end SshKeys.Der
