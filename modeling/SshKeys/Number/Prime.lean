import SshKeys.Number.Modular

/-!
A test for primes: division by small primes, then the strong test for a fixed
row of bases. A prime always passes; a composite number picked at random does
so with negligible probability.
-/

namespace SshKeys.Number

def smallPrimes : List Nat :=
  [2, 3, 5, 7, 11, 13, 17, 19, 23, 29, 31, 37, 41, 43, 47, 53, 59, 61, 67, 71, 73, 79, 83, 89,
    97, 101, 103, 107, 109, 113, 127, 131, 137, 139, 149, 151, 157, 163, 167, 173]

/-- A number of at most `bits` bits as a power of two and an odd factor. -/
def oddPart : (bits : Nat) → (n : Nat) → Nat × Nat
  | 0, n => (0, n)
  | bits + 1, n =>
    if n % 2 = 1 then (0, n)
    else
      let (twos, odd) := oddPart bits (n / 2)
      (twos + 1, odd)

/-- Whether `x` is -1 modulo `n`, or becomes so by less than `squarings` squarings. -/
def reachesMinusOne (n : Nat) : (squarings : Nat) → (x : Nat) → Bool
  | 0, _ => false
  | squarings + 1, x => x == n - 1 || reachesMinusOne n squarings (x * x % n)

/-- The strong test of an odd `n` for one base. -/
def strongTest (n base : Nat) : Bool :=
  let (twos, odd) := oddPart n.log2 (n - 1)
  let x := power base odd n
  x == 1 || reachesMinusOne n twos x

def isProbablePrime (n : Nat) : Bool :=
  if n < 2 then false
  else if n ∈ smallPrimes then true
  else smallPrimes.all (fun p => n % p ≠ 0) && smallPrimes.all (strongTest n)

end SshKeys.Number
