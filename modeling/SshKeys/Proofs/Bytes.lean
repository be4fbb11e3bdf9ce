import Mathlib.Data.List.Induction
import Mathlib.Data.Nat.Digits.Defs
import SshKeys.Bytes

/-!
Octets as the digits of a number.

Leading zeros do not change an unsigned number, and without them the octets are
determined by it. In two's complement the first octet has the sign.
-/

namespace SshKeys.Bytes

theorem toNat_ofNat {width n : Nat} (h : n < 256 ^ width) : toNat (ofNat width n) = n := by
  induction width generalizing n with
  | zero =>
      rw [pow_zero] at h
      rw [ofNat, toNat_nil]
      omega
  | succ width ih =>
      rw [pow_succ] at h
      rw [ofNat, toNat_concat, ih (by omega), UInt8.toNat_ofNat']
      omega

theorem toNat_lt (b : Bytes) : toNat b < 256 ^ b.length := by
  induction b using List.reverseRecOn with
  | nil => exact Nat.one_pos
  | append_singleton b x ih =>
      have hx := x.toNat_lt
      rw [toNat_concat, List.length_append, List.length_singleton, pow_succ]
      omega

/-! ### Leading zeros -/

/-- Octets are the digits of the number they denote, in base 256 and the other way round. -/
theorem toNat_eq_ofDigits (b : Bytes) :
    toNat b = Nat.ofDigits 256 (b.reverse.map UInt8.toNat) := by
  induction b using List.reverseRecOn with
  | nil => rfl
  | append_singleton b x ih =>
      rw [toNat_concat, ih, List.reverse_append, List.reverse_singleton, List.singleton_append,
        List.map_cons, Nat.ofDigits_cons, Nat.add_comm, Nat.mul_comm]

theorem toNat_zero_cons (b : Bytes) : toNat (0 :: b) = toNat b := by
  simp [toNat]

theorem toNat_replicate_zero_append (zeros : Nat) (b : Bytes) :
    toNat (List.replicate zeros 0 ++ b) = toNat b := by
  induction zeros with
  | zero => rfl
  | succ zeros ih => rw [List.replicate_succ, List.cons_append, toNat_zero_cons, ih]

theorem toNat_dropWhile_zero (b : Bytes) : toNat (b.dropWhile (· == 0)) = toNat b := by
  induction b with
  | nil => rfl
  | cons x b ih =>
      by_cases hx : x = 0
      · rw [hx, List.dropWhile_cons_of_pos (by decide), ih, toNat_zero_cons]
      · rw [List.dropWhile_cons_of_neg (by simpa using hx)]

theorem digits_toNat {b : Bytes} (h : b.head? ≠ some 0) :
    Nat.digits 256 (toNat b) = b.reverse.map UInt8.toNat := by
  rw [toNat_eq_ofDigits]
  apply Nat.digits_ofDigits 256 (by decide)
  · intro digit hdigit
    obtain ⟨x, -, rfl⟩ := List.mem_map.1 hdigit
    exact x.toNat_lt
  · intro hne hlast
    rw [List.getLast_map, List.getLast_reverse] at hlast
    rw [List.head?_eq_some_head (by simpa using hne)] at h
    exact h (congrArg some (UInt8.toNat_inj.1 hlast))

/-- Without leading zeros, the octets are determined by the number. -/
theorem eq_of_toNat_eq {b b' : Bytes} (hb : b.head? ≠ some 0) (hb' : b'.head? ≠ some 0)
    (h : toNat b = toNat b') : b = b' := by
  have hdigits := congrArg (Nat.digits 256) h
  rw [digits_toNat hb, digits_toNat hb'] at hdigits
  exact List.reverse_inj.1 ((List.map_inj_right fun _ _ => UInt8.toNat_inj.1).1 hdigits)

theorem head?_dropWhile_zero (b : Bytes) : (b.dropWhile (· == 0)).head? ≠ some 0 := by
  intro h
  have hnot := List.head?_dropWhile_not (· == 0) b
  rw [h] at hnot
  nomatch hnot

/-! ### Two's complement -/

/-- The number that octets denote in two's complement, most significant octet first. -/
def toInt (b : Bytes) : Int :=
  if b.head?.any (0x80 ≤ ·) then b.toNat - 256 ^ b.length else b.toNat

variable {first : UInt8} {rest : Bytes}

theorem toInt_cons_of_lt (h : first < 0x80) (rest : Bytes) :
    toInt (first :: rest) = toNat (first :: rest) := by
  have hlow : ¬0x80 ≤ first := UInt8.not_le.2 h
  simp [toInt, hlow]

/-- No natural number has its sign bit set. -/
theorem lt_of_toInt_eq {n : Nat} (h : toInt (first :: rest) = n) : first < 0x80 := by
  by_contra hhigh
  have hlt := toNat_lt (first :: rest)
  rw [toInt, if_pos (by simpa using hhigh)] at h
  have hcast : ((toNat (first :: rest) : Nat) : Int) < 256 ^ (first :: rest).length := by
    exact_mod_cast hlt
  omega

end SshKeys.Bytes
