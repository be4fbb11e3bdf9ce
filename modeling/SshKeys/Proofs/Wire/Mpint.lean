import SshKeys.Proofs.Bytes
import SshKeys.Wire.Item

/-!
Multiple-precision integers, by the shape of what is written, and that they
depend on the number only that a magnitude denotes.
-/

namespace SshKeys.Wire

/-- The body that a magnitude is written with. Leading zeros go, and one zero octet stands where
nothing is left or where the high bit of the first octet is set. -/
inductive IsMpintBody : (magnitude body : Bytes) → Prop
  | zero (zeros : Nat) : IsMpintBody (List.replicate zeros 0) [0]
  | low (zeros : Nat) (first : UInt8) (rest : Bytes) (hzero : first ≠ 0) (hlow : first < 0x80) :
      IsMpintBody (List.replicate zeros 0 ++ first :: rest) (first :: rest)
  | high (zeros : Nat) (first : UInt8) (rest : Bytes) (hhigh : 0x80 ≤ first) :
      IsMpintBody (List.replicate zeros 0 ++ first :: rest) (0 :: first :: rest)

theorem takeWhile_zero (magnitude : Bytes) :
    magnitude.takeWhile (· == 0) =
      List.replicate (magnitude.takeWhile (· == 0)).length 0 := by
  rw [List.eq_replicate_iff]
  refine ⟨rfl, fun x hx => ?_⟩
  simpa using List.all_eq_true.1 List.all_takeWhile x hx

theorem isMpintBody_mpintBody (magnitude : Bytes) :
    IsMpintBody magnitude (mpintBody magnitude) := by
  have hsplit := List.takeWhile_append_dropWhile (p := (· == 0)) (l := magnitude)
  rw [takeWhile_zero] at hsplit
  unfold mpintBody
  cases hdigits : magnitude.dropWhile (· == 0) with
  | nil =>
      rw [hdigits, List.append_nil] at hsplit
      have hbody := IsMpintBody.zero (magnitude.takeWhile (· == 0)).length
      rwa [hsplit] at hbody
  | cons first rest =>
      rw [hdigits] at hsplit
      have hfirst : first ≠ 0 := by
        rintro rfl
        exact Bytes.head?_dropWhile_zero magnitude (by rw [hdigits]; rfl)
      show IsMpintBody magnitude (if 0x80 ≤ first then 0 :: first :: rest else first :: rest)
      split
      · rename_i hhigh
        have hbody := IsMpintBody.high (magnitude.takeWhile (· == 0)).length first rest hhigh
        rwa [hsplit] at hbody
      · rename_i hlow
        have hbody := IsMpintBody.low (magnitude.takeWhile (· == 0)).length first rest
          hfirst (UInt8.not_le.1 hlow)
        rwa [hsplit] at hbody

/-- Magnitudes that denote the same number are written alike. -/
theorem mpintBody_eq_of_toNat_eq {magnitude magnitude' : Bytes}
    (h : magnitude.toNat = magnitude'.toNat) : mpintBody magnitude = mpintBody magnitude' := by
  have hdigits : magnitude.dropWhile (· == 0) = magnitude'.dropWhile (· == 0) := by
    apply Bytes.eq_of_toNat_eq (Bytes.head?_dropWhile_zero _) (Bytes.head?_dropWhile_zero _)
    rw [Bytes.toNat_dropWhile_zero, Bytes.toNat_dropWhile_zero, h]
  rw [mpintBody, mpintBody, hdigits]

end SshKeys.Wire
