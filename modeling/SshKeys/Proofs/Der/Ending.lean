import SshKeys.Proofs.Der.Extension
import SshKeys.Proofs.Der.Offsets

/-!
How the read of a header or an INTEGER ends.

`HeaderEnds` and `IntegerEnds` list the ways, each with the octets that lead to it
and the result that it has. One of them is always open, and the read has the
result of the one that is. So the errors are told apart by the tag, by the octet
behind it, and else by what is missing.
-/

namespace SshKeys.Der

variable {data : Bytes} {offset : Nat} {tag : UInt8}

/-! ### What is not there -/

theorem octetAt_of_length_le (h : data.length ≤ offset) :
    octetAt data offset = .error (.truncated offset) := by
  rw [octetAt, List.getElem?_eq_none h]

theorem slice_of_length_lt {start length : Nat} (hstart : start ≤ data.length)
    (h : data.length < start + length) : slice data start length = .error (.truncated start) := by
  rw [slice, if_neg (Nat.not_le.2 h), Nat.min_eq_right hstart]

theorem length_le_or_exists_at (data : Bytes) (offset : Nat) :
    data.length ≤ offset ∨ ∃ x, At data offset [x] := by
  rcases Nat.lt_or_ge offset data.length with hlt | hle
  · exact .inr ⟨data[offset], at_singleton.2 (List.getElem?_eq_getElem hlt)⟩
  · exact .inl hle

theorem exists_at_of_le {length : Nat} (h : offset + length ≤ data.length) :
    ∃ part, part.length = length ∧ At data offset part :=
  ⟨_, slice_eq_ok_iff.1 (if_pos h)⟩

/-! ### Headers -/

/-- An octet that no length begins with: it counts no octets of a number, or too many. -/
def IsNoLength (first : UInt8) : Prop :=
  first = 0x80 ∨ 0x84 < first

theorem isNoLength_iff {first : UInt8} :
    IsNoLength first ↔ first.toNat = 128 ∨ 132 < first.toNat := by
  rw [IsNoLength, ← UInt8.toNat_inj, UInt8.lt_iff_toNat_lt]
  rfl

/-- The ways in which the read of a header ends. -/
inductive HeaderEnds (data : Bytes) (offset : Nat) (tag : UInt8) : Except Error Header → Prop
  | noTag (h : data.length ≤ offset) : HeaderEnds data offset tag (.error (.truncated offset))
  | otherTag {found : UInt8} (h : At data offset [found]) (hne : found ≠ tag) :
      HeaderEnds data offset tag (.error (.unexpectedTag offset tag found))
  | noFirst (h : At data offset [tag]) (hend : data.length ≤ offset + 1) :
      HeaderEnds data offset tag (.error (.truncated (offset + 1)))
  | noLength {first : UInt8} (h : At data offset [tag, first]) (hfirst : IsNoLength first) :
      HeaderEnds data offset tag (.error (.invalidLength (offset + 1)))
  | shortNumber {first : UInt8} {octets : Nat} (h : At data offset [tag, first])
      (hfirst : first.toNat = 128 + octets) (hpos : 0 < octets) (hle : octets ≤ 4)
      (hend : data.length < offset + 2 + octets) :
      HeaderEnds data offset tag (.error (.truncated (offset + 2)))
  | header {head : Bytes} {length : Nat} (h : IsHeader tag length head)
      (hat : At data offset head) :
      HeaderEnds data offset tag (.ok ⟨offset + head.length, length⟩)

theorem exists_headerEnds (data : Bytes) (offset : Nat) (tag : UInt8) :
    ∃ result, HeaderEnds data offset tag result := by
  rcases length_le_or_exists_at data offset with hend | ⟨found, hfound⟩
  · exact ⟨_, .noTag hend⟩
  by_cases hne : found ≠ tag
  · exact ⟨_, .otherTag hfound hne⟩
  obtain rfl := not_not.1 hne
  rcases length_le_or_exists_at data (offset + 1) with hend | ⟨first, hfirst⟩
  · exact ⟨_, .noFirst hfound hend⟩
  have hat : At data offset [found, first] := at_cons.2 ⟨hfound, hfirst⟩
  by_cases hlow : first < 0x80
  · exact ⟨_, .header (.intro (.short hlow)) hat⟩
  by_cases hno : IsNoLength first
  · exact ⟨_, .noLength hat hno⟩
  -- what is left is a count of one to four octets
  have hcount : ∃ octets, first.toNat = 128 + octets ∧ 0 < octets ∧ octets ≤ 4 := by
    rw [isNoLength_iff] at hno
    rw [UInt8.lt_iff_toNat_lt, show (0x80 : UInt8).toNat = 128 from rfl] at hlow
    exact ⟨first.toNat - 128, by omega⟩
  obtain ⟨octets, hoctets, hpos, hle⟩ := hcount
  rcases Nat.lt_or_ge data.length (offset + 2 + octets) with hend | hroom
  · exact ⟨_, .shortNumber hat hoctets hpos hle hend⟩
  · obtain ⟨number, rfl, hnumber⟩ := exists_at_of_le hroom
    have hhead : At data offset (found :: first :: number) :=
      at_append (a := [found, first]).2 ⟨hat, hnumber⟩
    exact ⟨_, .header (.intro (.long hpos hle hoctets)) hhead⟩

theorem HeaderEnds.headerAt_eq {result : Except Error Header}
    (h : HeaderEnds data offset tag result) : headerAt data offset tag = result := by
  cases h with
  | noTag h =>
      rw [headerAt, octetAt_of_length_le h]
      rfl
  | otherTag h hne =>
      rw [headerAt, octetAt_eq_ok_iff.2 h, ok_bind, if_pos hne]
      rfl
  | noFirst h hend =>
      rw [headerAt, octetAt_eq_ok_iff.2 h, ok_bind, if_neg (not_not.2 rfl),
        octetAt_of_length_le hend]
      rfl
  | @noLength first h hfirst =>
      rw [isNoLength_iff] at hfirst
      obtain ⟨octets, hoctets⟩ : ∃ octets, first.toNat = 128 + octets :=
        ⟨first.toNat - 128, by omega⟩
      rw [headerAt_of_high h hoctets, if_pos (by omega)]
  | @shortNumber first octets h hfirst hpos hle hend =>
      have hstart : offset + 2 ≤ data.length := length_le_of_at h
      rw [headerAt_of_high h hfirst, if_neg (by omega), slice_of_length_lt hstart hend]
      rfl
  | header h hat => exact headerAt_of_isHeader h hat

/-! ### INTEGERs -/

/-- The ways in which the read of an INTEGER ends. -/
inductive IntegerEnds (data : Bytes) (offset : Nat) : Except Error Integer → Prop
  | header {e : Error} (h : HeaderEnds data offset integerTag (.error e)) :
      IntegerEnds data offset (.error e)
  | shortValue {head : Bytes} {length : Nat} (h : IsHeader integerTag length head)
      (hat : At data offset head) (hend : data.length < offset + head.length + length) :
      IntegerEnds data offset (.error (.truncated (offset + head.length)))
  | integer {value encoded : Bytes} (h : IsElement integerTag value encoded)
      (hat : At data offset encoded) :
      IntegerEnds data offset (.ok ⟨value, offset + encoded.length⟩)

theorem exists_integerEnds (data : Bytes) (offset : Nat) :
    ∃ result, IntegerEnds data offset result := by
  obtain ⟨result, hheader⟩ := exists_headerEnds data offset integerTag
  rcases result with e | header
  · exact ⟨_, .header hheader⟩
  cases hheader with
  | @header head length h hat =>
      rcases Nat.lt_or_ge data.length (offset + head.length + length) with hend | hroom
      · exact ⟨_, .shortValue h hat hend⟩
      · obtain ⟨value, rfl, hvalue⟩ := exists_at_of_le hroom
        exact ⟨_, .integer (isElement_iff.2 ⟨head, h, rfl⟩) (at_append.2 ⟨hat, hvalue⟩)⟩

theorem IntegerEnds.integerAt_eq {result : Except Error Integer}
    (h : IntegerEnds data offset result) : integerAt data offset = result := by
  cases h with
  | header h =>
      rw [integerAt, h.headerAt_eq]
      rfl
  | shortValue h hat hend =>
      rw [integerAt, headerAt_of_isHeader h hat, ok_bind,
        slice_of_length_lt (length_le_of_at hat) hend]
      rfl
  | integer h hat => exact integerAt_eq_ok_iff.2 ⟨_, h, hat, rfl⟩

theorem integerAt_eq_iff {result : Except Error Integer} :
    integerAt data offset = result ↔ IntegerEnds data offset result := by
  refine ⟨?_, IntegerEnds.integerAt_eq⟩
  rintro rfl
  obtain ⟨result, h⟩ := exists_integerEnds data offset
  rwa [h.integerAt_eq]

/-- The octets from `offset` up to `i.next` are there, and they are an INTEGER with the contents
`i.value`. -/
def HoldsInteger (data : Bytes) (offset : Nat) (i : Integer) : Prop :=
  ∃ encoded, IsElement integerTag i.value encoded ∧ At data offset encoded ∧
    i.next = offset + encoded.length

def HoldsOtherTag (data : Bytes) (offset : Nat) (found : UInt8) : Prop :=
  data[offset]? = some found ∧ found ≠ integerTag

/-- Behind the tag of an INTEGER there is an octet that no length begins with. -/
def HoldsNoLength (data : Bytes) (offset : Nat) : Prop :=
  data[offset]? = some integerTag ∧ ∃ first, data[offset + 1]? = some first ∧ IsNoLength first

theorem unexpectedTag_iff {position : Nat} {expected found : UInt8} :
    integerAt data offset = .error (.unexpectedTag position expected found) ↔
      position = offset ∧ expected = integerTag ∧ HoldsOtherTag data offset found := by
  rw [integerAt_eq_iff]
  constructor
  · intro h
    cases h with
    | header h =>
        cases h with
        | otherTag hat hne => exact ⟨rfl, rfl, at_singleton.1 hat, hne⟩
  · rintro ⟨rfl, rfl, hat, hne⟩
    exact .header (.otherTag (at_singleton.2 hat) hne)

theorem invalidLength_iff {position : Nat} :
    integerAt data offset = .error (.invalidLength position) ↔
      position = offset + 1 ∧ HoldsNoLength data offset := by
  rw [integerAt_eq_iff]
  constructor
  · intro h
    cases h with
    | header h =>
        cases h with
        | @noLength first hat hfirst =>
            obtain ⟨htag, hat⟩ := at_cons.1 hat
            exact ⟨rfl, at_singleton.1 htag, first, at_singleton.1 hat, hfirst⟩
  · rintro ⟨rfl, htag, first, hat, hfirst⟩
    exact .header (.noLength (at_cons.2 ⟨at_singleton.2 htag, at_singleton.2 hat⟩) hfirst)

theorem exists_truncated_iff :
    (∃ position, integerAt data offset = .error (.truncated position)) ↔
      (¬∃ i, HoldsInteger data offset i) ∧ (¬∃ found, HoldsOtherTag data offset found) ∧
        ¬HoldsNoLength data offset := by
  constructor
  · rintro ⟨position, h⟩
    refine ⟨fun ⟨i, hi⟩ => ?_, fun ⟨found, hfound⟩ => ?_, fun hno => ?_⟩
    · nomatch h.symm.trans (integerAt_eq_ok_iff.2 hi)
    · nomatch h.symm.trans (unexpectedTag_iff.2 ⟨rfl, rfl, hfound⟩)
    · nomatch h.symm.trans (invalidLength_iff.2 ⟨rfl, hno⟩)
  · rintro ⟨hinteger, hother, hno⟩
    rcases h : integerAt data offset with e | i
    · cases e with
      | truncated position => exact ⟨position, rfl⟩
      | unexpectedTag position expected found =>
          exact absurd ⟨found, (unexpectedTag_iff.1 h).2.2⟩ hother
      | invalidLength position => exact absurd (invalidLength_iff.1 h).2 hno
    · exact absurd ⟨i, integerAt_eq_ok_iff.1 h⟩ hinteger

/-- An INTEGER is read where it stands, whole. Where none does, the error is about the tag or the
length if these are wrong, and else about octets that are missing. The offsets that are computed on
the way stay near the buffer, so that they fit into a word. -/
theorem integerAt_classified (data : Bytes) (offset : Nat) :
    (∀ i, integerAt data offset = .ok i ↔ HoldsInteger data offset i) ∧
    (∀ position expected found,
      integerAt data offset = .error (.unexpectedTag position expected found) ↔
        position = offset ∧ expected = integerTag ∧ HoldsOtherTag data offset found) ∧
    (∀ position, integerAt data offset = .error (.invalidLength position) ↔
      position = offset + 1 ∧ HoldsNoLength data offset) ∧
    ((∃ position, integerAt data offset = .error (.truncated position)) ↔
      (¬∃ i, HoldsInteger data offset i) ∧ (¬∃ found, HoldsOtherTag data offset found) ∧
        ¬HoldsNoLength data offset) ∧
    ((notedIntegerAt data offset).run.run []).1 = integerAt data offset ∧
    (∀ n ∈ computedOffsets data offset, n ≤ data.length + 2 ^ 32 + 6) ∧
    (data.length < 2 ^ 63 → ∀ n ∈ computedOffsets data offset, n < 2 ^ 64) := by
  obtain ⟨hsame, hbelow⟩ := computes_integerAt data offset [] nofun
  refine ⟨fun i => integerAt_eq_ok_iff, fun _ _ _ => unexpectedTag_iff,
    fun _ => invalidLength_iff, exists_truncated_iff, hsame, hbelow, fun hlength n hn => ?_⟩
  have hle : n ≤ data.length + 2 ^ 32 + 6 := hbelow n hn
  omega

/-- A length of four octets that declares as much as it can, and nothing behind it. -/
theorem integerAt_classified_huge :
    let data : Bytes := [0xaa, 0x02, 0x84, 0xff, 0xff, 0xff, 0xff]
    integerAt data 1 = .error (.truncated 7) ∧ (¬∃ i, HoldsInteger data 1 i) ∧
      computedOffsets data 1 = [2, 3, 7, 7, 0x100000006] ∧
      ∀ n ∈ computedOffsets data 1, n < 2 ^ 64 := by
  intro data
  have hread : integerAt data 1 = .error (.truncated 7) := by decide +kernel
  obtain ⟨-, -, -, hshort, -, -, hword⟩ := integerAt_classified data 1
  exact ⟨hread, (hshort.1 ⟨7, hread⟩).1, by decide +kernel, hword (by decide)⟩

end SshKeys.Der
