import SshKeys.Text.Basic

/-!
The items that SSH key formats are written with.

A word is four octets. A string is a word that counts its octets, then the
octets. A multiple-precision integer is a string that holds a two's-complement
number, as short as possible. An `Item` is one thing written, and `encode`
writes items one after the other.
-/

namespace SshKeys.Wire

/-- A 32-bit word, most significant octet first. -/
def word (v : UInt32) : Bytes :=
  Bytes.ofNat 4 v.toNat

/-- A string: its length as a word, then its octets. -/
def string (data : Bytes) : Bytes :=
  word (UInt32.ofNat data.length) ++ data

/-- The shortest two's-complement form of the unsigned number that `magnitude` denotes. Leading
zeros go, a zero octet keeps a set high bit from being read as a sign, and zero itself is one zero
octet. -/
def mpintBody (magnitude : Bytes) : Bytes :=
  match magnitude.dropWhile (· == 0) with
  | [] => [0]
  | first :: rest => if 0x80 ≤ first then 0 :: first :: rest else first :: rest

/-- A multiple-precision integer. -/
def mpint (magnitude : Bytes) : Bytes :=
  string (mpintBody magnitude)

/-- One thing written. -/
inductive Item where
  | word (value : UInt32)
  /-- octets without a length -/
  | raw (data : Bytes)
  | string (data : Bytes)
  | text (value : Text)
  | mpint (magnitude : Bytes)
  deriving DecidableEq, Repr

def Item.encode : Item → Bytes
  | .word v => Wire.word v
  | .raw data => data
  | .string data => Wire.string data
  | .text t => Wire.string t.utf8
  | .mpint magnitude => Wire.mpint magnitude

/-- Items one after the other. -/
def encode (items : List Item) : Bytes :=
  items.flatMap Item.encode

@[simp] theorem length_word (v : UInt32) : (word v).length = 4 := by
  simp [word]

/-- A word denotes its value. -/
theorem toNat_word (v : UInt32) : (word v).toNat = v.toNat := by
  have h := v.toNat_lt
  simp only [word, Bytes.ofNat, Bytes.toNat, List.foldl_append, List.foldl_cons, List.foldl_nil,
    UInt8.toNat_ofNat']
  omega

@[simp] theorem length_string (data : Bytes) : (string data).length = 4 + data.length := by
  simp [string]

@[simp] theorem encode_nil : encode [] = [] := rfl

@[simp] theorem encode_cons (i : Item) (items : List Item) :
    encode (i :: items) = i.encode ++ encode items := rfl

end SshKeys.Wire
