import SshKeys.Ed25519.Key
import SshKeys.Hash.Sha512
import SshKeys.Number.Modular

/-!
The curve of Ed25519, and the public key of a seed.

Points are held in extended coordinates `(x : y : z : t)` with `x t = z y`
scaled so that sums need no division. The public key is the base point, added
to itself as often as the clamped digest of the seed says.
-/

namespace SshKeys.Ed25519

/-- The prime of the field. -/
def fieldPrime : Nat :=
  (1 <<< 255) - 19

/-- The coefficient of the curve, -121665/121666 in the field. -/
def coefficient : Nat :=
  37095705934669439343138083508754565189542113879843219016388785533085940283555

structure Point where
  x : Nat
  y : Nat
  z : Nat
  t : Nat

namespace Point

def neutral : Point :=
  ⟨0, 1, 1, 0⟩

def base : Point :=
  let x := 15112221349535400772501151409588531511454012693041857206046113283949847762202
  let y := 46316835694926478169428394003475163141307993866256225615783033603165251855960
  ⟨x, y, 1, x * y % fieldPrime⟩

def add (a b : Point) : Point :=
  let difference (u v : Nat) := u + fieldPrime - v
  let l := difference a.y a.x * difference b.y b.x % fieldPrime
  let m := (a.y + a.x) * (b.y + b.x) % fieldPrime
  let n := 2 * a.t * b.t % fieldPrime * coefficient % fieldPrime
  let o := 2 * a.z * b.z % fieldPrime
  let e := difference m l
  let f := difference o n
  let g := o + n
  let h := m + l
  ⟨e * f % fieldPrime, g * h % fieldPrime, f * g % fieldPrime, e * h % fieldPrime⟩

/-- A multiple of a point, for a scalar of at most `bits` bits. -/
def multiply : (bits : Nat) → (scalar : Nat) → Point → Point
  | 0, _, _ => neutral
  | bits + 1, scalar, p =>
    let rest := multiply bits (scalar / 2) (p.add p)
    if scalar % 2 = 1 then p.add rest else rest

/-- The number that a point is written as: its second coordinate, and the parity of the first in
the highest bit. -/
def toNat (p : Point) : Nat :=
  let scale := Number.power p.z (fieldPrime - 2) fieldPrime
  p.y * scale % fieldPrime + (p.x * scale % fieldPrime % 2) <<< 255

end Point

/-- The scalar of a seed: the first half of its digest, least octet first, with its three lowest
bits and its highest bit cleared and the one below that set. -/
def scalar (seed : Bytes) : Nat :=
  let n := Bytes.toNat ((Hash.sha512 seed).take 32).reverse
  n % (1 <<< 254) / 8 * 8 + 1 <<< 254

/-- The public key of a seed, least octet first. -/
def pointOfSeed (seed : Bytes) : KeyOctets :=
  ⟨(Bytes.ofNat keyLength (Point.multiply 255 (scalar seed) Point.base).toNat).reverse,
    by simp⟩

end SshKeys.Ed25519
