import SshKeys.Proofs.Wire.Mpint
import SshKeys.Proofs.Wire.Sequence

/-!
Multiple-precision integers as the canonical form of a number.

The body of a multiple-precision integer is read in two's complement. Of all
octets that denote the same natural number there, it is the only one without an
octet that it could spare (`IsCanonical`), so it is the same for all magnitudes
that denote this number and for no others.
-/

namespace SshKeys

namespace Wire

/-- The octets denote `n` in two's complement, and a zero octet comes first only where it is the
only one or keeps a set high bit from being a sign. -/
structure IsCanonical (n : Nat) (body : Bytes) : Prop where
  value : body.toInt = n
  ne_nil : body ≠ []
  pad : ∀ rest, body = 0 :: rest → rest = [] ∨ ∃ next more, rest = next :: more ∧ 0x80 ≤ next

variable {magnitude body : Bytes} {n : Nat}

theorem isCanonical_of_isMpintBody (h : IsMpintBody magnitude body) :
    IsCanonical magnitude.toNat body := by
  cases h with
  | zero zeros =>
      have hvalue := Bytes.toNat_replicate_zero_append zeros []
      rw [List.append_nil] at hvalue
      refine ⟨?_, by simp, fun rest hrest => .inl (List.cons.inj hrest).2.symm⟩
      rw [hvalue]
      rfl
  | low zeros first rest hzero hlow =>
      refine ⟨?_, by simp, fun rest' hrest => absurd (List.cons.inj hrest).1 hzero⟩
      rw [Bytes.toInt_cons_of_lt hlow, Bytes.toNat_replicate_zero_append]
  | high zeros first rest hhigh =>
      refine ⟨?_, by simp,
        fun rest' hrest => .inr ⟨first, rest, (List.cons.inj hrest).2.symm, hhigh⟩⟩
      rw [Bytes.toInt_cons_of_lt (by decide), Bytes.toNat_zero_cons,
        Bytes.toNat_replicate_zero_append]

theorem IsCanonical.toNat_eq (h : IsCanonical n body) : body.toNat = n := by
  obtain ⟨hvalue, hne, -⟩ := h
  cases body with
  | nil => exact absurd rfl hne
  | cons first rest =>
      rw [Bytes.toInt_cons_of_lt (Bytes.lt_of_toInt_eq hvalue)] at hvalue
      exact Int.ofNat.inj hvalue

/-- What is canonical already is written as it is. -/
theorem IsCanonical.mpintBody_eq (h : IsCanonical n body) : mpintBody body = body := by
  obtain ⟨hvalue, hne, hpad⟩ := h
  cases body with
  | nil => exact absurd rfl hne
  | cons first rest =>
      have hlow : ¬0x80 ≤ first := UInt8.not_le.2 (Bytes.lt_of_toInt_eq hvalue)
      by_cases hzero : first = 0
      · subst hzero
        rcases hpad rest rfl with rfl | ⟨next, more, rfl, hhigh⟩
        · rfl
        · have hnext : next ≠ 0 := by
            rintro rfl
            exact absurd hhigh (by decide)
          rw [mpintBody, List.dropWhile_cons_of_pos (by decide),
            List.dropWhile_cons_of_neg (by simpa using hnext)]
          exact if_pos hhigh
      · rw [mpintBody, List.dropWhile_cons_of_neg (by simpa using hzero)]
        exact if_neg hlow

theorem isCanonical_iff : IsCanonical magnitude.toNat body ↔ body = mpintBody magnitude := by
  constructor
  · intro h
    rw [← mpintBody_eq_of_toNat_eq h.toNat_eq, h.mpintBody_eq]
  · rintro rfl
    exact isCanonical_of_isMpintBody (isMpintBody_mpintBody magnitude)

theorem mpint_eq_iff {magnitude' : Bytes} :
    mpint magnitude = mpint magnitude' ↔ magnitude.toNat = magnitude'.toNat := by
  constructor
  · intro h
    obtain ⟨-, hbody⟩ := List.append_inj h (by rw [length_word, length_word])
    have hvalue := (isCanonical_iff.2 hbody).toNat_eq
    rwa [(isCanonical_iff.2 rfl).toNat_eq] at hvalue
  · intro h
    rw [mpint, mpint, mpintBody_eq_of_toNat_eq h]

theorem length_mpintBody_le (magnitude : Bytes) :
    (mpintBody magnitude).length ≤ (stripped magnitude).length + 1 := by
  unfold mpintBody stripped
  cases magnitude.dropWhile (· == 0) with
  | nil => simp
  | cons first rest =>
      dsimp only
      split <;> simp

theorem toNat_stripped (magnitude : Bytes) : (stripped magnitude).toNat = magnitude.toNat := by
  rw [← Bytes.toNat_dropWhile_zero magnitude]
  unfold stripped
  cases magnitude.dropWhile (· == 0) <;> rfl

/-- A multiple-precision integer holds the canonical form of the number that its magnitude denotes,
and is read back as this number. Magnitudes are written alike exactly if they denote the same
number. -/
theorem mpint_holds_number (magnitude : Bytes)
    (h : (stripped magnitude).length + 1 < UInt32.size) :
    let r := Reader.start (mpint magnitude)
    let done : Reader := ⟨(mpint magnitude).length, []⟩
    (∃ body, Returns Read.bytes r body done ∧ IsCanonical magnitude.toNat body ∧
      ∀ other, IsCanonical magnitude.toNat other → other = body) ∧
    (∃ value, Returns Read.mpint r value done ∧ value.toNat = magnitude.toNat) ∧
    ∀ other, mpint other = mpint magnitude ↔ other.toNat = magnitude.toNat := by
  intro r done
  have hfits : (mpintBody magnitude).length < UInt32.size :=
    Nat.lt_of_le_of_lt (length_mpintBody_le magnitude) h
  have hconsumes : r.Consumes (mpint magnitude) done := Reader.start_consumes_all _
  exact ⟨⟨mpintBody magnitude, returns_bytes.2 ⟨hfits, hconsumes⟩, isCanonical_iff.2 rfl,
      fun _ => isCanonical_iff.1⟩,
    ⟨stripped magnitude, returns_mpint hfits hconsumes, toNat_stripped magnitude⟩,
    fun _ => mpint_eq_iff⟩

/-- The number 128 with a zero in front, and without. -/
theorem mpint_holds_number_high :
    (stripped [0, 0x80]).length + 1 < UInt32.size ∧
      (∃ body, Returns Read.bytes (.start (mpint [0, 0x80])) body ⟨6, []⟩ ∧
        IsCanonical 128 body) ∧
      mpint [0x80] = mpint [0, 0x80] ∧ mpint [0x7f] ≠ mpint [0, 0x80] := by
  have hfits : (stripped [0, 0x80]).length + 1 < UInt32.size := by decide
  obtain ⟨⟨body, hbody, hcanonical, -⟩, -, halike⟩ := mpint_holds_number [0, 0x80] hfits
  exact ⟨hfits, ⟨body, hbody, hcanonical⟩, (halike [0x80]).2 rfl,
    fun h => absurd ((halike [0x7f]).1 h) (by decide)⟩

end Wire

end SshKeys
