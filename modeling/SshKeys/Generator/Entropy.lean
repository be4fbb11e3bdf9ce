import SshKeys.Hash.Sha256

/-!
A stream of octets drawn from a seed: the digests of the seed with a counter.
-/

namespace SshKeys

structure Entropy where
  seed : Bytes
  counter : Nat

namespace Entropy

def ofSeed (seed : Bytes) : Entropy :=
  ⟨seed, 0⟩

/-- A stream of its own for each label. -/
def branch (e : Entropy) (label : UInt8) : Entropy :=
  ofSeed (e.seed ++ [label])

/-- Digests one after the other. -/
def blocks : (count : Nat) → StateM Entropy Bytes
  | 0 => return []
  | count + 1 => do
    let e ← get
    set (⟨e.seed, e.counter + 1⟩ : Entropy)
    let block := Hash.sha256 (e.seed ++ Bytes.ofNat 8 e.counter)
    return block ++ (← blocks count)

def octets (count : Nat) : StateM Entropy Bytes := do
  return (← blocks (count / 32 + 1)).take count

/-- A number of at most `bits` bits. -/
def number (bits : Nat) : StateM Entropy Nat := do
  return Bytes.toNat (← octets (bits / 8 + 1)) % (1 <<< bits)

def word : StateM Entropy UInt32 := do
  return UInt32.ofNat (← number 32)

end Entropy

end SshKeys
