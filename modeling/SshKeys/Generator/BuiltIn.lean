import SshKeys.Ed25519.Curve
import SshKeys.Generator.Entropy
import SshKeys.KeyPair
import SshKeys.Number.Prime

/-!
The built-in generator. It draws seeds and primes from a stream of entropy, so
the same stream gives the same keys.
-/

namespace SshKeys.BuiltIn

structure Settings where
  /-- whether Ed25519 is offered -/
  ed25519 : Bool
  /-- bits of an RSA modulus -/
  rsaBits : Nat

/-- Ed25519, and RSA with 4096 bits. -/
def standard : Settings :=
  ⟨true, 4096⟩

def publicExponent : Nat :=
  65537

/-- The smallest modulus for which there are enough primes to choose from. -/
def leastBits : Nat :=
  12

/-- The largest modulus of a key. -/
def mostBits : Nat :=
  4096

def ed25519 : StateM Entropy ExportedPair := do
  let seed ← Entropy.octets Ed25519.keyLength
  return ⟨(Ed25519.pointOfSeed seed).val, ⟨seed⟩⟩

/-- A prime of exactly `bits` bits whose two highest bits are set, within `tries` draws. -/
def prime (bits : Nat) : (tries : Nat) → StateM Entropy (Option Nat)
  | 0 => return none
  | tries + 1 => do
    let drawn ← Entropy.number (bits - 2)
    let candidate := 3 <<< (bits - 2) + drawn / 2 * 2 + 1
    if Number.isProbablePrime candidate then return some candidate
    else prime bits tries

/-- The numbers of a key with these primes, if they can be one: the primes differ, the modulus has
the right size, and the public exponent has an inverse. -/
def numbers? (bits p q : Nat) : Option Rsa.PrivateKeyInfo.Numbers := do
  let n := p * q
  guard (p ≠ q ∧ n.log2 + 1 = bits)
  let d ← Number.inverse? publicExponent ((p - 1) * (q - 1))
  let qi ← Number.inverse? q p
  return ⟨n, publicExponent, d, p, q, d % (p - 1), d % (q - 1), qi⟩

/-- Draws primes until they make a key, within `tries` draws. -/
def rsaNumbers (bits : Nat) : (tries : Nat) → StateM Entropy (Option Rsa.PrivateKeyInfo.Numbers)
  | 0 => return none
  | tries + 1 => do
    let draws := 100 * bits + 1000
    let some p ← prime (bits / 2) draws
      | return none
    let some q ← prime (bits - bits / 2) draws
      | return none
    match numbers? bits p q with
    | some key => return some key
    | none => rsaNumbers bits tries

def rsa (bits : Nat) : StateM Entropy Answer := do
  let failure (reason : String) : Answer := .failed (.generationFailed reason.toList)
  if bits < leastBits then
    return failure "too few primes of given length to generate an RSA key"
  if mostBits < bits then
    return failure "modulus too large"
  match ← rsaNumbers bits 1000 with
  | none => return failure "no suitable primes were drawn"
  | some key =>
    if key.n ≤ publicExponent then
      return failure "invalid modulus"
    return .pair ⟨key.encodePublic, ⟨key.encode⟩⟩

/-- The answers of the built-in generator, each drawn from the start of the stream. -/
def generator (settings : Settings) (entropy : Entropy) : Generator
  | .ed25519 =>
    if settings.ed25519 then .pair (ed25519.run entropy).1 else .unsupported
  | .rsa4096 => ((rsa settings.rsaBits).run entropy).1

end SshKeys.BuiltIn
