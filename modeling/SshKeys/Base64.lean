import SshKeys.Text.Basic

/-!
Base64 with the standard alphabet, padded, in its canonical form only.

Three octets become four symbols. `decode` reads groups of four symbols; pads
may stand in the last group only, must fill it, and the bits of the last symbol
that no octet takes must be zero. So each octet string has one accepted form,
the one that `encode` writes. What is refused is reported with the place of the
first offence, counted in octets of the input.
-/

namespace SshKeys.Base64

/-- The pad `=`. -/
def pad : UInt8 := 61

/-- The symbol of a six-bit digit: letters, small letters, figures, `+` and `/`. -/
def symbol (d : Nat) : UInt8 :=
  if d < 26 then UInt8.ofNat (d + 65)
  else if d < 52 then UInt8.ofNat (d + 71)
  else if d < 62 then UInt8.ofNat (d - 4)
  else if d = 62 then 43
  else 47

/-- The digit that a symbol stands for. -/
def digit? (s : UInt8) : Option Nat :=
  let n := s.toNat
  if 65 ≤ n ∧ n ≤ 90 then some (n - 65)
  else if 97 ≤ n ∧ n ≤ 122 then some (n - 71)
  else if 48 ≤ n ∧ n ≤ 57 then some (n + 4)
  else if n = 43 then some 62
  else if n = 47 then some 63
  else none

/-! ### Writing -/

/-- The padded symbols of an octet string. -/
def encode : Bytes → Bytes
  | [] => []
  | [a] => [symbol (a.toNat / 4), symbol (a.toNat % 4 * 16), pad, pad]
  | [a, b] =>
    [symbol (a.toNat / 4), symbol (a.toNat % 4 * 16 + b.toNat / 16), symbol (b.toNat % 16 * 4),
      pad]
  | a :: b :: c :: rest =>
    symbol (a.toNat / 4) :: symbol (a.toNat % 4 * 16 + b.toNat / 16) ::
      symbol (b.toNat % 16 * 4 + c.toNat / 64) :: symbol (c.toNat % 64) :: encode rest

/-- The padded symbols as a text; all of them are ASCII. -/
def encodeText (b : Bytes) : Text :=
  (encode b).map fun s => Char.ofNat s.toNat

/-- The symbols as a text, without the pads at the end. -/
def encodeUnpadded (b : Bytes) : Text :=
  (encodeText b).takeWhile (· != '=')

/-! ### Reading -/

/-- Why an octet string is no base64 text. -/
inductive Error where
  | invalidSymbol (offset : Nat) (symbol : UInt8)
  | invalidLength (length : Nat)
  | invalidLastSymbol (offset : Nat) (symbol : UInt8)
  | invalidPadding
  deriving DecidableEq, Repr

def Error.message : Error → String
  | .invalidSymbol offset symbol => s!"Invalid symbol {symbol}, offset {offset}."
  | .invalidLength length => s!"Invalid input length: {length}"
  | .invalidLastSymbol offset symbol => s!"Invalid last symbol {symbol}, offset {offset}."
  | .invalidPadding => "Invalid padding"

/-- The digit of the symbol that stands at `offset`. -/
def digitAt (offset : Nat) (s : UInt8) : Except Error Nat :=
  match digit? s with
  | some d => .ok d
  | none => .error (.invalidSymbol offset s)

/-- Reads the last group, which begins at `start`: the digits of its symbols and the number of
its pads. The first two places take no pad, and no symbol follows a pad. -/
def lastGroup (start : Nat) (digits : List Nat) (pads : Nat) :
    Bytes → Except Error (List Nat × Nat)
  | [] => .ok (digits, pads)
  | s :: rest =>
    if s = pad then
      if digits.length + pads < 2 then
        .error (.invalidSymbol (start + digits.length + pads) pad)
      else lastGroup start digits (pads + 1) rest
    else if 0 < pads then .error (.invalidSymbol (start + digits.length) pad)
    else do
      let d ← digitAt (start + digits.length) s
      lastGroup start (digits ++ [d]) pads rest

/-- The octets of the last group. The symbols and pads together fill it, and the bits that are
left over are zero. -/
def closeGroup (start : Nat) : List Nat × Nat → Except Error Bytes
  | ([w, x], pads) =>
    if (2 + pads) % 4 ≠ 0 then .error .invalidPadding
    else if x % 16 ≠ 0 then .error (.invalidLastSymbol (start + 1) (symbol x))
    else .ok [UInt8.ofNat (w * 4 + x / 16)]
  | ([w, x, y], pads) =>
    if (3 + pads) % 4 ≠ 0 then .error .invalidPadding
    else if y % 4 ≠ 0 then .error (.invalidLastSymbol (start + 2) (symbol y))
    else .ok [UInt8.ofNat (w * 4 + x / 16), UInt8.ofNat (x % 16 * 16 + y / 4)]
  | ([w, x, y, z], _) =>
    .ok [UInt8.ofNat (w * 4 + x / 16), UInt8.ofNat (x % 16 * 16 + y / 4),
      UInt8.ofNat (y % 4 * 64 + z)]
  | (digits, _) => .error (.invalidLength (start + digits.length))

/-- Reads the groups from `start` on. All but the last hold four symbols. -/
def decodeGroups (start : Nat) : Bytes → Except Error Bytes
  | [] => .ok []
  | a :: b :: c :: d :: e :: rest => do
    let w ← digitAt start a
    let x ← digitAt (start + 1) b
    let y ← digitAt (start + 2) c
    let z ← digitAt (start + 3) d
    let more ← decodeGroups (start + 4) (e :: rest)
    return UInt8.ofNat (w * 4 + x / 16) :: UInt8.ofNat (x % 16 * 16 + y / 4) ::
      UInt8.ofNat (y % 4 * 64 + z) :: more
  | group => do closeGroup start (← lastGroup start [] 0 group)

/-- A symbol too many at the very end is reported before all else when it is no symbol at all. -/
def strayEnd? (s : Bytes) : Option Error :=
  match s.getLast? with
  | none => none
  | some last =>
    if s.length % 4 = 1 ∧ last ≠ pad ∧ digit? last = none then
      some (.invalidSymbol (s.length - 1) last)
    else none

/-- The octets whose canonical form is `s`. -/
def decode (s : Bytes) : Except Error Bytes :=
  match strayEnd? s with
  | some e => .error e
  | none => decodeGroups 0 s

/-! ### The alphabet -/

theorem digit?_symbol {d : Nat} (h : d < 64) : digit? (symbol d) = some d := by
  have : ∀ d : Fin 64, digit? (symbol d) = some d.val := by decide
  exact this ⟨d, h⟩

theorem symbol_ne_pad {d : Nat} (h : d < 64) : symbol d ≠ pad := by
  have : ∀ d : Fin 64, symbol d ≠ pad := by decide
  exact this ⟨d, h⟩

end SshKeys.Base64
