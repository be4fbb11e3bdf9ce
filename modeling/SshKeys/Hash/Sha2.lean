import SshKeys.Bytes

/-!
The SHA-2 family, for a word type and a table of its constants.

A message is padded to whole blocks of sixteen words: one bit, zeros, and the
length in bits as a number of two words. Each block is spread to one word a
round and stirred into eight chaining words, whose octets are the digest.
-/

namespace SshKeys.Hash

/-- What tells the members of the family apart. -/
structure Variant (Word : Type) where
  /-- octets in a word -/
  width : Nat
  ofNat : Nat → Word
  toNat : Word → Nat
  /-- one word for each round -/
  roundConstants : List Word
  /-- the eight chaining words before the first block -/
  start : List Word
  sumA : Word → Word
  sumE : Word → Word
  spreadLate : Word → Word
  spreadEarly : Word → Word

namespace Variant

variable {Word : Type}

/-- The message, one bit, zeros up to two words before the end of a block, and the length in
bits. -/
def padded (v : Variant Word) (message : Bytes) : Bytes :=
  let block := 16 * v.width
  let tail := 2 * v.width
  let used := (message.length + 1 + tail) % block
  message ++ 0x80 :: List.replicate ((block - used) % block) 0 ++
    Bytes.ofNat tail (8 * message.length)

/-- The first `count` words of an octet string, and what is left of it. -/
def takeWords (v : Variant Word) : (count : Nat) → Bytes → List Word × Bytes
  | 0, b => ([], b)
  | count + 1, b =>
    let (words, rest) := v.takeWords count (b.drop v.width)
    (v.ofNat (Bytes.toNat (b.take v.width)) :: words, rest)

variable [Add Word] [AndOp Word] [XorOp Word] [Complement Word]

/-- The words of `rounds` rounds. The window holds the sixteen words that come next. -/
def spread (v : Variant Word) : (rounds : Nat) → (window : List Word) → List Word
  | 0, _ => []
  | _ + 1, [] => []
  | rounds + 1, w :: window =>
    let zero := v.ofNat 0
    let next := v.spreadLate (window.getD 13 zero) + window.getD 8 zero +
      v.spreadEarly (window.getD 0 zero) + w
    w :: v.spread rounds (window ++ [next])

/-- One round, with its constant and its word already added. -/
def round (v : Variant Word) (state : List Word) (input : Word) : List Word :=
  match state with
  | [a, b, c, d, e, f, g, h] =>
    let left := h + v.sumE e + ((e &&& f) ^^^ (~~~e &&& g)) + input
    let right := v.sumA a + ((a &&& b) ^^^ (a &&& c) ^^^ (b &&& c))
    [left + right, a, b, c, d + left, e, f, g]
  | other => other

/-- Stirs one block of sixteen words into the chaining words. -/
def compress (v : Variant Word) (state block : List Word) : List Word :=
  let inputs := List.zipWith (· + ·) v.roundConstants (v.spread v.roundConstants.length block)
  List.zipWith (· + ·) state (inputs.foldl v.round state)

/-- Stirs in `blocks` blocks. -/
def absorb (v : Variant Word) : (blocks : Nat) → (state : List Word) → Bytes → List Word
  | 0, state, _ => state
  | blocks + 1, state, b =>
    let (words, rest) := v.takeWords 16 b
    v.absorb blocks (v.compress state words) rest

/-- The digest of a message. -/
def digest (v : Variant Word) (message : Bytes) : Bytes :=
  let b := v.padded message
  (v.absorb (b.length / (16 * v.width)) v.start b).flatMap fun w => Bytes.ofNat v.width (v.toNat w)

end Variant

end SshKeys.Hash
