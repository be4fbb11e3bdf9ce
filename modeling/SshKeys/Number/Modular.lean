/-!
Powers and inverses modulo a number.
-/

namespace SshKeys.Number

/-- The power modulo `modulus` by repeated squaring, for an exponent of at most `bits` bits. -/
def powerBits (modulus : Nat) : (bits : Nat) → (base exponent : Nat) → Nat
  | 0, _, _ => 1 % modulus
  | bits + 1, base, exponent =>
    let rest := powerBits modulus bits (base * base % modulus) (exponent / 2)
    if exponent % 2 = 1 then base * rest % modulus else rest

def power (base exponent modulus : Nat) : Nat :=
  powerBits modulus (exponent.log2 + 1) base exponent

/-- Runs the Euclidean algorithm and keeps, for both remainders, the factor of the number whose
inverse is sought. -/
def euclid (r : Nat) (factor : Int) (next : Nat) (nextFactor : Int) : Nat × Int :=
  if next = 0 then (r, factor)
  else euclid next nextFactor (r % next) (factor - (r / next : Nat) * nextFactor)
termination_by next
decreasing_by exact Nat.mod_lt _ (by omega)

/-- The inverse of `a` modulo `modulus`, if there is one. -/
def inverse? (a modulus : Nat) : Option Nat :=
  let (gcd, factor) := euclid (a % modulus) 1 modulus 0
  if gcd = 1 then some (factor % modulus).toNat else none

end SshKeys.Number
