/-!
Octet strings and the numbers they write down.

A number is written most significant octet first. `ofNat` writes the octets
that a width leaves room for, and `toNat` reads octets of any number.
-/

namespace SshKeys

/-- An octet string. -/
abbrev Bytes := List UInt8

namespace Bytes

/-- The unsigned number that an octet string denotes, most significant octet first. -/
def toNat (b : Bytes) : Nat :=
  b.foldl (fun n x => n * 256 + x.toNat) 0

/-- The last `width` octets of `n`, most significant first. -/
def ofNat : (width : Nat) → (n : Nat) → Bytes
  | 0, _ => []
  | width + 1, n => ofNat width (n / 256) ++ [UInt8.ofNat n]

/-- The octets of `n` without leading zeros; zero is a single zero octet. -/
def ofNatMinimal (n : Nat) : Bytes :=
  ofNat (n.log2 / 8 + 1) n

@[simp] theorem length_ofNat (width n : Nat) : (ofNat width n).length = width := by
  induction width generalizing n with
  | zero => rfl
  | succ width ih => simp [ofNat, ih]

@[simp] theorem toNat_nil : toNat [] = 0 := rfl

theorem toNat_concat (b : Bytes) (x : UInt8) : toNat (b ++ [x]) = toNat b * 256 + x.toNat := by
  simp [toNat]

/-- Octets are determined by how many there are and which number they denote. -/
theorem ofNat_toNat {width : Nat} {b : Bytes} (h : b.length = width) :
    ofNat width (toNat b) = b := by
  induction width generalizing b with
  | zero => simp [ofNat, List.length_eq_zero_iff.1 h]
  | succ width ih =>
    rcases List.eq_nil_or_concat b with rfl | ⟨front, x, rfl⟩
    · simp at h
    · have hx := x.toNat_lt
      have hfront : front.length = width := by simpa using h
      have hdiv : (toNat front * 256 + x.toNat) / 256 = toNat front := by omega
      have hlast : UInt8.ofNat (toNat front * 256 + x.toNat) = x :=
        UInt8.toNat_inj.1 (by rw [UInt8.toNat_ofNat']; omega)
      rw [List.concat_eq_append, toNat_concat, ofNat, hdiv, ih hfront, hlast]

theorem toNat_lt_of_length_eq_four {b : Bytes} (h : b.length = 4) : toNat b < UInt32.size := by
  match b, h with
  | [w, x, y, z], _ =>
    have hw := w.toNat_lt
    have hx := x.toNat_lt
    have hy := y.toNat_lt
    have hz := z.toNat_lt
    simp only [toNat, List.foldl_cons, List.foldl_nil, UInt32.size]
    omega

end Bytes

end SshKeys
