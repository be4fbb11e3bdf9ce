import SshKeys.Proofs.Der.Reading

/-!
Reads of octets to which others are added at the end.

A read looks at the octets that it needs and at no others. So it either runs
short or does the same whatever comes after them (`Settled`), and what is read
of a buffer cut short can differ in one way only. For the same reason no header
and no element is the beginning of another one.
-/

namespace SshKeys.Der

variable {α β : Type} {data : Bytes} {offset : Nat}

/-! ### Reads that are settled -/

/-- Unless the read runs short, it does the same with more octets at the end. -/
def Settled (read : Bytes → Except Error α) : Prop :=
  ∀ data more, (∃ offset, read data = .error (.truncated offset)) ∨
    read (data ++ more) = read data

namespace Settled

variable {read : Bytes → Except Error α}

theorem const (x : Except Error α) : Settled fun _ => x :=
  fun _ _ => .inr rfl

theorem bind {next : α → Bytes → Except Error β} (h : Settled read)
    (hnext : ∀ a, Settled (next a)) : Settled fun data => read data >>= fun a => next a data := by
  intro data more
  rcases h data more with ⟨offset, hshort⟩ | hsame
  · exact .inl ⟨offset, by dsimp only; rw [hshort]; rfl⟩
  · dsimp only
    rw [hsame]
    cases hread : read data with
    | error e => exact .inr rfl
    | ok a => exact hnext a data more

theorem ite {c : Prop} [Decidable c] {other : Bytes → Except Error α} (h : Settled read)
    (hother : Settled other) : Settled fun data => if c then read data else other data := by
  by_cases hc : c
  · simpa only [if_pos hc] using h
  · simpa only [if_neg hc] using hother

/-- A check of what has been read already does not look at the octets. -/
theorem throwIf {c : Prop} [Decidable c] (e : Error) (h : Settled read) :
    Settled fun data =>
      if c then do let _ ← (throw e : Except Error Unit); read data else read data :=
  ite (bind (const (throw e)) fun _ => h) h

/-- What is found is found among more octets too, and what is not found is missing. -/
theorem of_ok (hok : ∀ data a, read data = .ok a → ∀ more, read (data ++ more) = .ok a)
    (herror : ∀ data e, read data = .error e → ∃ offset, e = .truncated offset) :
    Settled read := by
  intro data more
  cases hread : read data with
  | error e =>
      obtain ⟨offset, rfl⟩ := herror data e hread
      exact .inl ⟨offset, rfl⟩
  | ok a => exact .inr (hok data a hread more)

/-! ### What follows for the buffer -/

/-- An error that is not about missing octets is final. -/
theorem append_of_error (h : Settled read) {e : Error} (hread : read data = .error e)
    (he : ∀ offset, e ≠ .truncated offset) (more : Bytes) : read (data ++ more) = .error e := by
  rcases h data more with ⟨offset, hshort⟩ | hsame
  · rw [hread] at hshort
    exact absurd (Except.error.inj hshort) (he offset)
  · rw [hsame, hread]

/-- A buffer that is cut short is read as the whole one, or runs short. -/
theorem take (h : Settled read) (data : Bytes) (count : Nat) :
    (∃ offset, read (data.take count) = .error (.truncated offset)) ∨
      read (data.take count) = read data := by
  rcases h (data.take count) (data.drop count) with hshort | hsame
  · exact .inl hshort
  · rw [List.take_append_drop] at hsame
    exact .inr hsame.symm

end Settled

theorem At.append {part : Bytes} (h : At data offset part) (more : Bytes) :
    At (data ++ more) offset part := by
  obtain ⟨before, after, rfl, hlength⟩ := h
  exact ⟨before, after ++ more, by simp, hlength⟩

theorem settled_octetAt (offset : Nat) : Settled fun data => octetAt data offset := by
  refine .of_ok (fun data x h more => ?_) fun data e h => ?_
  · exact octetAt_eq_ok_iff.2 ((octetAt_eq_ok_iff.1 h).append more)
  · unfold octetAt at h
    split at h
    · nomatch h
    · exact ⟨offset, (Except.error.inj h).symm⟩

theorem settled_slice (start length : Nat) : Settled fun data => slice data start length := by
  refine .of_ok (fun data part h more => ?_) fun data e h => ?_
  · obtain ⟨hlength, hat⟩ := slice_eq_ok_iff.1 h
    exact slice_eq_ok_iff.2 ⟨hlength, hat.append more⟩
  · unfold slice at h
    split at h
    · nomatch h
    · exact ⟨min data.length start, (Except.error.inj h).symm⟩

theorem settled_headerAt (offset : Nat) (tag : UInt8) :
    Settled fun data => headerAt data offset tag := by
  refine .bind (settled_octetAt offset) fun found => .throwIf _ ?_
  refine .bind (settled_octetAt (offset + 1)) fun first => .ite (.const _) ?_
  refine .throwIf _ (.bind (settled_slice (offset + 2) (first.toNat - 128)) fun _ => .const _)

theorem settled_integerAt (offset : Nat) : Settled fun data => integerAt data offset :=
  .bind (settled_headerAt offset integerTag) fun header =>
    .bind (settled_slice header.start header.length) fun _ => .const _

/-! ### Nothing is the beginning of something else -/

/-- The octets of a header: a tag, and a length in one of its forms. -/
inductive IsHeader (tag : UInt8) (length : Nat) : Bytes → Prop
  | intro {encoded : Bytes} (h : IsLength encoded length) : IsHeader tag length (tag :: encoded)

variable {tag : UInt8} {length : Nat} {head rest rest' : Bytes}

theorem headerAt_eq_ok_iff_isHeader {header : Header} :
    headerAt data offset tag = .ok header ↔
      ∃ head, IsHeader tag header.length head ∧ At data offset head ∧
        header.start = offset + head.length := by
  rw [headerAt_eq_ok_iff]
  constructor
  · rintro ⟨encoded, hencoded, hat, hstart⟩
    exact ⟨_, .intro hencoded, hat, hstart⟩
  · rintro ⟨_, ⟨hencoded⟩, hat, hstart⟩
    exact ⟨_, hencoded, hat, hstart⟩

theorem headerAt_of_isHeader (h : IsHeader tag length head) (hat : At data offset head) :
    headerAt data offset tag = .ok ⟨offset + head.length, length⟩ :=
  headerAt_eq_ok_iff_isHeader.2 ⟨head, h, hat, rfl⟩

/-- An element is a header and as many octets as it declares. -/
theorem isElement_iff {contents encoded : Bytes} :
    IsElement tag contents encoded ↔
      ∃ head, IsHeader tag contents.length head ∧ encoded = head ++ contents := by
  constructor
  · rintro ⟨hlength⟩
    exact ⟨_, .intro hlength, rfl⟩
  · rintro ⟨_, ⟨hlength⟩, rfl⟩
    exact .intro hlength

/-- Behind a header that declares more than is read there is an element with octets left over. -/
theorem IsHeader.exists_isElement (h : IsHeader tag length head) (part rest : Bytes)
    (hpart : part.length ≤ length) (hroom : length ≤ (part ++ rest).length) :
    ∃ unread after, rest = unread ++ after ∧ part.length + unread.length = length ∧
      IsElement tag (part ++ unread) (head ++ (part ++ unread)) := by
  have hcount : (rest.take (length - part.length)).length = length - part.length := by
    rw [List.length_append] at hroom
    exact List.length_take_of_le (by omega)
  have hlength : (part ++ rest.take (length - part.length)).length = length := by
    rw [List.length_append, hcount]
    omega
  exact ⟨_, _, (List.take_append_drop _ rest).symm, by rw [hcount]; omega,
    isElement_iff.2 ⟨head, hlength ▸ h, rfl⟩⟩

/-- At one place there is one header with a given tag. -/
theorem IsHeader.eq {length' : Nat} {head' : Bytes} (h : IsHeader tag length head)
    (h' : IsHeader tag length' head') (heq : head ++ rest = head' ++ rest') :
    head = head' ∧ length = length' ∧ rest = rest' := by
  have hread := headerAt_of_isHeader h (at_zero.2 (List.prefix_append head rest))
  rw [heq, headerAt_of_isHeader h' (at_zero.2 (List.prefix_append head' rest'))] at hread
  obtain ⟨hlength, rfl⟩ := Header.mk.inj (Except.ok.inj hread)
  obtain ⟨rfl, rfl⟩ := List.append_inj heq (by omega)
  exact ⟨rfl, rfl, rfl⟩

theorem IsElement.eq {contents contents' encoded encoded' : Bytes}
    (h : IsElement tag contents encoded) (h' : IsElement tag contents' encoded')
    (heq : encoded ++ rest = encoded' ++ rest') :
    encoded = encoded' ∧ contents = contents' ∧ rest = rest' := by
  obtain ⟨head, hhead, rfl⟩ := isElement_iff.1 h
  obtain ⟨head', hhead', rfl⟩ := isElement_iff.1 h'
  rw [List.append_assoc, List.append_assoc] at heq
  obtain ⟨rfl, hcount, heq⟩ := hhead.eq hhead' heq
  obtain ⟨rfl, rfl⟩ := List.append_inj heq hcount
  exact ⟨rfl, rfl, rfl⟩

/-- As many integers at the same place are the same integers. -/
theorem AreIntegers.eq {values values' : List Bytes} {encoded encoded' : Bytes}
    (h : AreIntegers values encoded) (h' : AreIntegers values' encoded')
    (hcount : values.length = values'.length) (heq : encoded ++ rest = encoded' ++ rest') :
    values = values' ∧ encoded = encoded' ∧ rest = rest' := by
  induction h generalizing values' encoded' with
  | nil =>
      cases h' with
      | nil => exact ⟨rfl, rfl, heq⟩
      | cons => nomatch hcount
  | cons hinteger _ ih =>
      cases h' with
      | nil => nomatch hcount
      | cons hinteger' hrest' =>
          rw [List.append_assoc, List.append_assoc] at heq
          obtain ⟨rfl, rfl, heq⟩ := hinteger.eq hinteger' heq
          obtain ⟨rfl, rfl, rfl⟩ := ih hrest' (Nat.succ.inj hcount) heq
          exact ⟨rfl, rfl, rfl⟩

end SshKeys.Der
