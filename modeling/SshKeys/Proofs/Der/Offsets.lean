import SshKeys.Proofs.Der.Reading

/-!
The offsets that a read of a header or an INTEGER computes.

The noted reads below are the reads themselves with each sum of offsets put on a
list. `Computes` says of a noted read that it comes to the same as the read it is
made from, and that no sum on its list is above a bound. It has one rule for each
kind of step, so both facts come out of one walk through the read.
-/

namespace SshKeys.Der

/-- A read that notes the offsets that it computes. -/
abbrev Noting := ExceptT Error (StateM (List Nat))

/-- A sum, which is noted. -/
def notedSum (a b : Nat) : Noting Nat := do
  modify (· ++ [a + b])
  return a + b

/-- The end of the slice is a sum too. -/
def notedSlice (data : Bytes) (start length : Nat) : Noting Bytes := do
  let _ ← notedSum start length
  slice data start length

def notedHeaderAt (data : Bytes) (offset : Nat) (expected : UInt8) : Noting Header := do
  let found ← octetAt data offset
  if found ≠ expected then
    throw (.unexpectedTag offset expected found)
  let lengthAt ← notedSum offset 1
  let first ← octetAt data lengthAt
  if first < 0x80 then
    return ⟨← notedSum lengthAt 1, first.toNat⟩
  let octets := first.toNat - 128
  if octets = 0 ∨ 4 < octets then
    throw (.invalidLength lengthAt)
  let numberAt ← notedSum lengthAt 1
  let number ← notedSlice data numberAt octets
  return ⟨← notedSum numberAt octets, Bytes.toNat number⟩

def notedIntegerAt (data : Bytes) (offset : Nat) : Noting Integer := do
  let header ← notedHeaderAt data offset integerTag
  let value ← notedSlice data header.start header.length
  return ⟨value, ← notedSum header.start header.length⟩

/-- The offsets that the read of an INTEGER computes. -/
def computedOffsets (data : Bytes) (offset : Nat) : List Nat :=
  ((notedIntegerAt data offset).run.run []).2

/-- The noted read `x` comes to the same as `y`, and no offset that it computes is above `bound`. -/
def Computes {α : Type} (bound : Nat) (x : Noting α) (y : Except Error α) : Prop :=
  ∀ notes : List Nat, (∀ n ∈ notes, n ≤ bound) →
    (x.run.run notes).1 = y ∧ ∀ n ∈ (x.run.run notes).2, n ≤ bound

variable {α β : Type} {bound : Nat}

namespace Computes

variable {x : Noting α} {y : Except Error α}

theorem lift (result : Except Error α) : Computes bound (liftM result) result := by
  intro notes hnotes
  cases result with
  | error e => exact ⟨rfl, hnotes⟩
  | ok a => exact ⟨rfl, hnotes⟩

protected theorem pure (a : α) : Computes bound (pure a) (.ok a) :=
  lift (.ok a)

protected theorem bind {f : α → Noting β} {g : α → Except Error β} (h : Computes bound x y)
    (hf : ∀ a, y = .ok a → Computes bound (f a) (g a)) :
    Computes bound (x >>= f) (y >>= g) := by
  intro notes hnotes
  obtain ⟨hresult, hbelow⟩ := h notes hnotes
  rw [run_run_bind]
  rcases hrun : x.run.run notes with ⟨e | a, notes'⟩
  · rw [hrun] at hresult hbelow
    rw [← hresult]
    exact ⟨rfl, hbelow⟩
  · rw [hrun] at hresult hbelow
    rw [← hresult]
    exact hf a hresult.symm notes' hbelow

/-- A sum changes the list and nothing else. -/
theorem afterSum {a b : Nat} {f : Nat → Noting α} (h : a + b ≤ bound)
    (hf : Computes bound (f (a + b)) y) : Computes bound (notedSum a b >>= f) y := by
  intro notes hnotes
  refine hf (notes ++ [a + b]) fun n hn => ?_
  rcases List.mem_append.1 hn with hn | hn
  · exact hnotes n hn
  · rw [List.mem_singleton.1 hn]
    exact h

theorem ite {c : Prop} [Decidable c] {x' : Noting α} {y' : Except Error α}
    (h : c → Computes bound x y) (h' : ¬c → Computes bound x' y') :
    Computes bound (if c then x else x') (if c then y else y') := by
  split
  · exact h ‹c›
  · exact h' ‹¬c›

/-- Nothing is computed behind a check that fails. -/
theorem throwIf {c : Prop} [Decidable c] (e : Error) (h : ¬c → Computes bound x y) :
    Computes bound (if c then do let _ ← (throw e : Noting Unit); x else x)
      (if c then do let _ ← (throw e : Except Error Unit); y else y) :=
  ite (fun _ => .bind (lift (throw e)) nofun) h

end Computes

variable {data : Bytes} {offset : Nat}

/-- A header ends in the buffer, and its length takes four octets at most. -/
theorem bounds_of_headerAt {tag : UInt8} {header : Header}
    (h : headerAt data offset tag = .ok header) :
    header.start ≤ data.length ∧ header.length < 2 ^ 32 := by
  obtain ⟨encoded, hlength, hat, hstart⟩ := headerAt_eq_ok_iff.1 h
  refine ⟨hstart ▸ length_le_of_at hat, ?_⟩
  rcases isLength_iff.1 hlength with ⟨hshort, -⟩ | ⟨octets, -, hle, hroom, -⟩
  · omega
  · calc header.length < 256 ^ octets := hroom
      _ ≤ 256 ^ 4 := Nat.pow_le_pow_right (by decide) hle
      _ = 2 ^ 32 := by decide

theorem computes_slice {start length : Nat} (h : start + length ≤ bound) :
    Computes bound (notedSlice data start length) (slice data start length) :=
  .afterSum h (.lift _)

theorem computes_headerAt (tag : UInt8) (hbound : data.length + 6 ≤ bound) :
    Computes bound (notedHeaderAt data offset tag) (headerAt data offset tag) := by
  refine .bind (.lift _) fun found hfound => .throwIf _ fun _ => ?_
  have hin := length_le_of_at (octetAt_eq_ok_iff.1 hfound)
  rw [List.length_singleton] at hin
  refine .afterSum (by omega) (.bind (.lift _) fun first _ => .ite (fun _ => ?_) fun _ => ?_)
  · exact .afterSum (by omega) (.pure _)
  · refine .throwIf _ fun hoctets => .afterSum (by omega) ?_
    refine .bind (computes_slice (by omega)) fun number _ => .afterSum (by omega) (.pure _)

/-- Noting changes nothing, and the offsets stay near the buffer, wherever the read begins. -/
theorem computes_integerAt (data : Bytes) (offset : Nat) :
    Computes (data.length + 2 ^ 32 + 6) (notedIntegerAt data offset) (integerAt data offset) := by
  refine .bind (computes_headerAt _ (by omega)) fun header hheader => ?_
  obtain ⟨hstart, hlength⟩ := bounds_of_headerAt hheader
  refine .bind (computes_slice (by omega)) fun value _ => .afterSum ?_ (.pure _)
  omega

end SshKeys.Der
