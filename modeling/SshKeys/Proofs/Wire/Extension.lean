import SshKeys.Proofs.Wire.Reading

/-!
Reads with more octets behind those that are left.

A read that takes items one after the other does not see where the octets end,
unless it runs short. So with more octets behind it returns the same and leaves
the others unread (`Settled`).
-/

namespace SshKeys.Wire

variable {ε α β : Type}

namespace Reader

/-- The reader with more octets behind those that are left. -/
def extend (r : Reader) (more : Bytes) : Reader :=
  ⟨r.position, r.remaining ++ more⟩

theorem start_append (data more : Bytes) : start (data ++ more) = (start data).extend more := rfl

theorem isEmpty_extend (r : Reader) {more : Bytes} (h : more ≠ []) :
    (r.extend more).isEmpty = false := by
  simp [extend, isEmpty, h]

end Reader

/-- Unless the read fails for want of octets, it does the same with more octets behind. -/
def Settled (short : ε → Prop) (x : ExceptT ε (StateM Reader) α) : Prop :=
  ∀ r more, (∃ e, short e ∧ (x.run.run r).1 = .error e) ∨
    x.run.run (r.extend more) = ((x.run.run r).1, (x.run.run r).2.extend more)

namespace Settled

variable {short : ε → Prop} {x : ExceptT ε (StateM Reader) α}

theorem pure (a : α) : Settled short (Pure.pure a : ExceptT ε (StateM Reader) α) :=
  fun _ _ => .inr rfl

theorem throw (e : ε) : Settled short (MonadExcept.throw e : ExceptT ε (StateM Reader) α) :=
  fun _ _ => .inr rfl

theorem bind {f : α → ExceptT ε (StateM Reader) β} (h : Settled short x)
    (hf : ∀ a, Settled short (f a)) : Settled short (x >>= f) := by
  intro r more
  rw [Read.run_bind, Read.run_bind]
  rcases h r more with ⟨e, he, hshort⟩ | hsame
  · rcases hx : x.run.run r with ⟨e' | a, r'⟩
    · rw [hx] at hshort
      obtain rfl := Except.error.inj hshort
      exact .inl ⟨e', he, rfl⟩
    · rw [hx] at hshort
      nomatch hshort
  · rw [hsame]
    rcases x.run.run r with ⟨e | a, r'⟩
    · exact .inr rfl
    · exact hf a r' more

end Settled

/-- An error that more octets might mend. -/
def Error.IsShort (e : Error) : Prop :=
  ∃ needed available, e = .truncated needed available

theorem settled_raw (length : Nat) : Settled Error.IsShort (Read.raw length) := by
  intro r more
  rw [Read.run_raw, Read.run_raw]
  by_cases hshort : r.remaining.length < length
  · rw [if_pos hshort]
    exact .inl ⟨_, ⟨length, r.remaining.length, rfl⟩, rfl⟩
  · have henough : ¬(r.extend more).remaining.length < length := by
      simp only [Reader.extend, List.length_append]
      omega
    have hle : length ≤ r.remaining.length := Nat.le_of_not_lt hshort
    rw [if_neg hshort, if_neg henough]
    refine .inr ?_
    simp only [Reader.extend, Reader.advance, List.take_append_of_le_length hle,
      List.drop_append_of_le_length hle]

theorem settled_word : Settled Error.IsShort Read.word :=
  .bind (settled_raw 4) fun _ => .pure _

theorem settled_bytes : Settled Error.IsShort Read.bytes :=
  .bind settled_word fun n => settled_raw n.toNat

theorem settled_text : Settled Error.IsShort Read.text := by
  refine .bind settled_bytes fun data => ?_
  cases Text.ofUtf8? data with
  | none => exact .throw _
  | some t => exact .pure t

end SshKeys.Wire
