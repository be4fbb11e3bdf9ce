import SshKeys.Der.Reader
import SshKeys.Proofs.Bytes
import SshKeys.Proofs.Except

/-!
What a successful read of an element says about the octets it passed.

A read returns a value exactly when an element that holds the value stands at
the offset, its length in one of the forms that are understood. The octets
after the element are of no account.
-/

namespace SshKeys

namespace Der

/-! ### Octets at an offset -/

/-- The octets `part` stand at `offset`. -/
def At (data : Bytes) (offset : Nat) (part : Bytes) : Prop :=
  ∃ before after, data = before ++ (part ++ after) ∧ before.length = offset

variable {data part a b : Bytes} {offset : Nat}

theorem at_iff : At data offset part ↔ offset ≤ data.length ∧ part <+: data.drop offset := by
  constructor
  · rintro ⟨before, after, rfl, rfl⟩
    refine ⟨by simp, after, ?_⟩
    rw [List.drop_left]
  · rintro ⟨hle, after, hafter⟩
    refine ⟨data.take offset, after, ?_, List.length_take_of_le hle⟩
    rw [hafter, List.take_append_drop]

theorem at_zero : At data 0 part ↔ part <+: data := by
  rw [at_iff, List.drop_zero]
  exact ⟨And.right, fun h => ⟨Nat.zero_le _, h⟩⟩

theorem length_le_of_at (h : At data offset part) : offset + part.length ≤ data.length := by
  obtain ⟨before, after, rfl, rfl⟩ := h
  simp only [List.length_append]
  omega

theorem at_append : At data offset (a ++ b) ↔ At data offset a ∧ At data (offset + a.length) b := by
  constructor
  · rintro ⟨before, after, rfl, rfl⟩
    exact ⟨⟨before, b ++ after, by simp, rfl⟩, ⟨before ++ a, after, by simp, by simp⟩⟩
  · rintro ⟨⟨before, after, rfl, rfl⟩, ⟨front, rest, heq, hlength⟩⟩
    rw [← List.append_assoc] at heq
    obtain ⟨-, rfl⟩ := List.append_inj heq (by rw [List.length_append, hlength])
    exact ⟨before, rest, by simp, rfl⟩

theorem at_cons {x : UInt8} :
    At data offset (x :: b) ↔ At data offset [x] ∧ At data (offset + 1) b :=
  at_append (a := [x])

theorem at_singleton {x : UInt8} : At data offset [x] ↔ data[offset]? = some x := by
  constructor
  · rintro ⟨before, after, rfl, rfl⟩
    rw [List.getElem?_append_right le_rfl, Nat.sub_self]
    rfl
  · intro h
    obtain ⟨hlt, rfl⟩ := List.getElem?_eq_some_iff.1 h
    exact at_iff.2 ⟨hlt.le, data.drop (offset + 1), (List.drop_eq_getElem_cons hlt).symm⟩

theorem octetAt_eq_ok_iff {x : UInt8} : octetAt data offset = .ok x ↔ At data offset [x] := by
  rw [at_singleton, octetAt]
  split
  · rename_i y hy
    rw [hy, Except.ok.injEq, Option.some.injEq]
  · rename_i hnone
    rw [hnone]
    exact ⟨nofun, nofun⟩

theorem slice_eq_ok_iff {start length : Nat} :
    slice data start length = .ok part ↔ part.length = length ∧ At data start part := by
  unfold slice
  split
  · rename_i hle
    have hlength : ((data.drop start).take length).length = length := by
      rw [List.length_take, List.length_drop]
      omega
    rw [Except.ok.injEq, at_iff]
    constructor
    · rintro rfl
      exact ⟨hlength, by omega, List.take_prefix length _⟩
    · rintro ⟨hpart, -, hprefix⟩
      rw [← hpart]
      exact (List.prefix_iff_eq_take.1 hprefix).symm
  · rename_i hlt
    refine ⟨nofun, ?_⟩
    rintro ⟨rfl, before, after, rfl, rfl⟩
    exact absurd (by simp) hlt

/-! ### Elements -/

/-- The length octets that a header may have, and the length they give. -/
inductive IsLength : (encoded : Bytes) → (length : Nat) → Prop
  | short {first : UInt8} (h : first < 0x80) : IsLength [first] first.toNat
  | long {first : UInt8} {number : Bytes} (hpos : 0 < number.length) (hle : number.length ≤ 4)
      (hfirst : first.toNat = 128 + number.length) : IsLength (first :: number) number.toNat

/-- The length octets that are understood are those that `LengthForm.encode` writes in its short
form, and in the long forms with one to four octets that have room for the length. -/
theorem isLength_iff {encoded : Bytes} {length : Nat} :
    IsLength encoded length ↔
      (length < 128 ∧ encoded = LengthForm.short.encode length) ∨
      ∃ octets, 0 < octets ∧ octets ≤ 4 ∧ length < 256 ^ octets ∧
        encoded = (LengthForm.long octets).encode length := by
  constructor
  · intro h
    cases h with
    | @short first hlow =>
        refine .inl ⟨UInt8.lt_iff_toNat_lt.1 hlow, ?_⟩
        rw [LengthForm.encode, UInt8.ofNat_toNat]
    | @long first number hpos hle hfirst =>
        refine .inr ⟨number.length, hpos, hle, Bytes.toNat_lt number, ?_⟩
        rw [LengthForm.encode, Bytes.ofNat_toNat rfl, ← hfirst, UInt8.ofNat_toNat]
  · rintro (⟨hshort, rfl⟩ | ⟨octets, hpos, hle, hroom, rfl⟩)
    · have hfirst : (UInt8.ofNat length).toNat = length := by
        rw [UInt8.toNat_ofNat']
        omega
      have h : UInt8.ofNat length < 0x80 := by
        rw [UInt8.lt_iff_toNat_lt, hfirst]
        exact hshort
      simpa only [LengthForm.encode, hfirst] using IsLength.short h
    · have hcount : (Bytes.ofNat octets length).length = octets := Bytes.length_ofNat octets length
      have hfirst : (UInt8.ofNat (128 + octets)).toNat =
          128 + (Bytes.ofNat octets length).length := by
        rw [UInt8.toNat_ofNat', hcount]
        omega
      have h := IsLength.long (by omega) (by omega) hfirst
      rwa [Bytes.toNat_ofNat hroom] at h

/-- A first octet with its high bit set has the count of the octets that follow. -/
theorem headerAt_of_high {tag first : UInt8} {octets : Nat} (h : At data offset [tag, first])
    (hfirst : first.toNat = 128 + octets) :
    headerAt data offset tag =
      if octets = 0 ∨ 4 < octets then .error (.invalidLength (offset + 1))
      else do return ⟨offset + 2 + octets, Bytes.toNat (← slice data (offset + 2) octets)⟩ := by
  obtain ⟨htag, hat⟩ := at_cons.1 h
  have hhigh : ¬first < 0x80 := by
    rw [UInt8.lt_iff_toNat_lt, hfirst]
    exact Nat.not_lt.2 (Nat.le_add_right 128 _)
  have hcount : first.toNat - 128 = octets := by omega
  rw [headerAt, octetAt_eq_ok_iff.2 htag, ok_bind, if_neg (not_not.2 rfl),
    octetAt_eq_ok_iff.2 hat, ok_bind, if_neg hhigh, hcount]
  rfl

/-- A header is read exactly where a tag and a length stand. -/
theorem headerAt_eq_ok_iff {tag : UInt8} {header : Header} :
    headerAt data offset tag = .ok header ↔
      ∃ encoded, IsLength encoded header.length ∧ At data offset (tag :: encoded) ∧
        header.start = offset + (tag :: encoded).length := by
  constructor
  · intro h
    unfold headerAt at h
    obtain ⟨found, hfound, h⟩ := bind_eq_ok_iff.1 h
    obtain ⟨htag, h⟩ := throw_if_eq_ok_iff.1 h
    obtain ⟨first, hfirst, h⟩ := bind_eq_ok_iff.1 h
    rw [Decidable.not_not.1 htag, octetAt_eq_ok_iff] at hfound
    rw [octetAt_eq_ok_iff] at hfirst
    split at h
    · rename_i hlow
      cases h
      exact ⟨[first], .short hlow, at_cons.2 ⟨hfound, hfirst⟩, rfl⟩
    · obtain ⟨hcount, h⟩ := throw_if_eq_ok_iff.1 h
      obtain ⟨number, hnumber, h⟩ := bind_eq_ok_iff.1 h
      obtain ⟨hlength, hnumber⟩ := slice_eq_ok_iff.1 hnumber
      obtain rfl := Except.ok.inj h
      refine ⟨first :: number, .long (by omega) (by omega) (by omega), ?_, ?_⟩
      · exact at_cons.2 ⟨hfound, at_cons.2 ⟨hfirst, hnumber⟩⟩
      · simp only [List.length_cons]
        omega
  · rintro ⟨encoded, hencoded, hat, hstart⟩
    obtain ⟨start, length⟩ := header
    obtain ⟨htag, hlength⟩ := at_cons.1 hat
    dsimp only at hencoded hstart
    cases hencoded with
    | short hlow =>
        rw [headerAt, octetAt_eq_ok_iff.2 htag, ok_bind, if_neg (not_not.2 rfl),
          octetAt_eq_ok_iff.2 hlength, ok_bind, if_pos hlow, hstart]
        rfl
    | @long first number hpos hle hfirst =>
        obtain ⟨hoctet, hnumber⟩ := at_cons.1 hlength
        have hend : start = offset + 2 + number.length := by
          rw [hstart, List.length_cons, List.length_cons]
          omega
        rw [headerAt_of_high (at_cons.2 ⟨htag, hoctet⟩) hfirst, if_neg (by omega),
          slice_eq_ok_iff.2 ⟨rfl, hnumber⟩, ok_bind, hend]
        rfl

/-- The octets of an element with given contents. -/
inductive IsElement (tag : UInt8) (contents : Bytes) : Bytes → Prop
  | intro {length : Bytes} (h : IsLength length contents.length) :
      IsElement tag contents (tag :: (length ++ contents))

theorem isElement_short {tag : UInt8} {contents : Bytes} (h : contents.length < 128) :
    IsElement tag contents (elementWith .short tag contents) :=
  .intro (isLength_iff.2 (.inl ⟨h, rfl⟩))

theorem isElement_long {tag : UInt8} {contents : Bytes} {octets : Nat} (hpos : 0 < octets)
    (hle : octets ≤ 4) (h : contents.length < 256 ^ octets) :
    IsElement tag contents (elementWith (.long octets) tag contents) :=
  .intro (isLength_iff.2 (.inr ⟨octets, hpos, hle, h, rfl⟩))

/-- The header of an element leads to its contents, and past them. -/
theorem headerAt_of_isElement {tag : UInt8} {contents encoded : Bytes}
    (h : IsElement tag contents encoded) (hat : At data offset encoded) :
    ∃ start, headerAt data offset tag = .ok ⟨start, contents.length⟩ ∧ At data start contents ∧
      start + contents.length = offset + encoded.length := by
  obtain @⟨length, hlength⟩ := h
  obtain ⟨hhead, hcontents⟩ := at_append (a := tag :: length).1 hat
  refine ⟨offset + (tag :: length).length, ?_, hcontents, ?_⟩
  · exact headerAt_eq_ok_iff.2 ⟨length, hlength, hhead, rfl⟩
  · rw [← List.cons_append, List.length_append, Nat.add_assoc]

/-- A header and the contents behind it are an element. -/
theorem isElement_of_headerAt {tag : UInt8} {header : Header} {contents : Bytes}
    (h : headerAt data offset tag = .ok header)
    (hcontents : slice data header.start header.length = .ok contents) :
    ∃ encoded, IsElement tag contents encoded ∧ At data offset encoded ∧
      header.stop = offset + encoded.length := by
  obtain ⟨length, hlength, hhead, hstart⟩ := headerAt_eq_ok_iff.1 h
  obtain ⟨hcount, hat⟩ := slice_eq_ok_iff.1 hcontents
  rw [← hcount] at hlength
  rw [hstart] at hat
  refine ⟨_, .intro hlength, at_append (a := tag :: length).2 ⟨hhead, hat⟩, ?_⟩
  rw [Header.stop, hstart, ← hcount, ← List.cons_append, List.length_append, Nat.add_assoc]

/-- Contents that are passed over are there if something is read behind them. -/
theorem isElement_of_headerAt_stop {tag tag' : UInt8} {header next : Header}
    (h : headerAt data offset tag = .ok header)
    (hnext : headerAt data header.stop tag' = .ok next) :
    ∃ contents encoded, IsElement tag contents encoded ∧ At data offset encoded ∧
      header.stop = offset + encoded.length := by
  obtain ⟨_, -, hat, -⟩ := headerAt_eq_ok_iff.1 hnext
  have hle : header.start + header.length ≤ data.length := (at_iff.1 hat).1
  exact ⟨_, isElement_of_headerAt h (if_pos hle)⟩

/-- An INTEGER is read exactly where it stands. -/
theorem integerAt_eq_ok_iff {i : Integer} :
    integerAt data offset = .ok i ↔
      ∃ encoded, IsElement integerTag i.value encoded ∧ At data offset encoded ∧
        i.next = offset + encoded.length := by
  unfold integerAt
  constructor
  · intro h
    obtain ⟨header, hheader, h⟩ := bind_eq_ok_iff.1 h
    obtain ⟨value, hvalue, h⟩ := bind_eq_ok_iff.1 h
    obtain rfl := Except.ok.inj h
    exact isElement_of_headerAt hheader hvalue
  · rintro ⟨encoded, hencoded, hat, hnext⟩
    obtain ⟨value, next⟩ := i
    obtain ⟨start, hheader, hvalue, hstop⟩ := headerAt_of_isElement hencoded hat
    obtain rfl : start + value.length = next := hstop.trans hnext.symm
    rw [hheader, ok_bind, slice_eq_ok_iff.2 ⟨rfl, hvalue⟩, ok_bind]
    rfl

/-- INTEGERs one after the other. -/
inductive AreIntegers : (values : List Bytes) → (encoded : Bytes) → Prop
  | nil : AreIntegers [] []
  | cons {value encoded : Bytes} {values : List Bytes} {rest : Bytes}
      (h : IsElement integerTag value encoded) (hrest : AreIntegers values rest) :
      AreIntegers (value :: values) (encoded ++ rest)

theorem areIntegers_short {values : List Bytes} (h : ∀ value ∈ values, value.length < 128) :
    AreIntegers values (values.map (elementWith .short integerTag)).flatten := by
  induction values with
  | nil => exact .nil
  | cons value values ih =>
      obtain ⟨hvalue, hvalues⟩ := List.forall_mem_cons.1 h
      exact .cons (isElement_short hvalue) (ih hvalues)

/-- Each integer is read where the one before it ends. -/
inductive ReadsIntegers (data : Bytes) : (offset : Nat) → (values : List Bytes) → Prop
  | nil {offset : Nat} : ReadsIntegers data offset []
  | cons {offset : Nat} {i : Integer} {values : List Bytes} (h : integerAt data offset = .ok i)
      (hrest : ReadsIntegers data i.next values) : ReadsIntegers data offset (i.value :: values)

theorem readsIntegers_of_areIntegers {values : List Bytes} {encoded : Bytes}
    (h : AreIntegers values encoded) (hat : At data offset encoded) :
    ReadsIntegers data offset values := by
  induction h generalizing offset with
  | nil => exact .nil
  | @cons value encoded values rest hinteger _ ih =>
      obtain ⟨hfirst, hrest⟩ := at_append.1 hat
      have hread : integerAt data offset = .ok ⟨value, offset + encoded.length⟩ :=
        integerAt_eq_ok_iff.2 ⟨encoded, hinteger, hfirst, rfl⟩
      exact .cons hread (ih hrest)

/-- The integers that are read stand one after the other. -/
theorem ReadsIntegers.areIntegers {values : List Bytes} (h : ReadsIntegers data offset values)
    (hoffset : offset ≤ data.length) :
    ∃ encoded, AreIntegers values encoded ∧ At data offset encoded := by
  induction h with
  | nil => exact ⟨[], .nil, at_iff.2 ⟨hoffset, List.nil_prefix⟩⟩
  | cons hread _ ih =>
      obtain ⟨encoded, hencoded, hat, hnext⟩ := integerAt_eq_ok_iff.1 hread
      obtain ⟨more, hmore, hatMore⟩ := ih (hnext ▸ length_le_of_at hat)
      rw [hnext] at hatMore
      exact ⟨encoded ++ more, .cons hencoded hmore, at_append.2 ⟨hat, hatMore⟩⟩

end Der

end SshKeys
