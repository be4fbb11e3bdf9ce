import SshKeys.Wire.Reader

/-!
What a successful read says about the octets it passed.

`Reader.Consumes` relates a reader, the octets read and the reader after them,
and a read returns a value exactly when the reader consumes the encoding of
that value. Encodings are consumed one after the other, so the same holds of
sequences of reads, in both directions.
-/

namespace SshKeys.Wire

/-- A word is determined by its octets. -/
theorem word_ofNat_toNat {b : Bytes} (h : b.length = 4) :
    word (UInt32.ofNat (Bytes.toNat b)) = b := by
  rw [word, UInt32.toNat_ofNat_of_lt' (Bytes.toNat_lt_of_length_eq_four h),
    Bytes.ofNat_toNat h]

namespace Reader

/-- From `r` to `r'`, the octets `data` are read. -/
structure Consumes (r : Reader) (data : Bytes) (r' : Reader) : Prop where
  remaining : r.remaining = data ++ r'.remaining
  position : r'.position = r.position + data.length

theorem consumes_nil {r r' : Reader} : r.Consumes [] r' ↔ r' = r := by
  constructor
  · rintro ⟨hremaining, hposition⟩
    cases r
    cases r'
    simp_all
  · rintro rfl
    exact ⟨rfl, rfl⟩

/-- Octets one after the other are read one after the other. -/
theorem consumes_append {r r'' : Reader} {a b : Bytes} :
    r.Consumes (a ++ b) r'' ↔ ∃ r', r.Consumes a r' ∧ r'.Consumes b r'' := by
  constructor
  · rintro ⟨hremaining, hposition⟩
    refine ⟨⟨r.position + a.length, b ++ r''.remaining⟩, ⟨?_, rfl⟩, ⟨rfl, ?_⟩⟩
    · rw [hremaining, List.append_assoc]
    · rw [hposition, List.length_append, Nat.add_assoc]
  · rintro ⟨r', ⟨hra, hpa⟩, ⟨hrb, hpb⟩⟩
    refine ⟨?_, ?_⟩
    · rw [hra, hrb, List.append_assoc]
    · rw [hpb, hpa, List.length_append, Nat.add_assoc]

/-- Strings are consumed one by one. -/
theorem consumes_strings_cons {r r'' : Reader} {f : Bytes} {fs : List Bytes} :
    r.Consumes (Wire.encode ((f :: fs).map .string)) r'' ↔
      ∃ r', r.Consumes (string f) r' ∧ r'.Consumes (Wire.encode (fs.map .string)) r'' :=
  consumes_append

theorem consumes_strings_nil {r r' : Reader} :
    r.Consumes (Wire.encode (([] : List Bytes).map .string)) r' ↔ r' = r :=
  consumes_nil

theorem start_consumes (data rest : Bytes) :
    (start (data ++ rest)).Consumes data ⟨data.length, rest⟩ :=
  ⟨rfl, (Nat.zero_add _).symm⟩

theorem start_consumes_all (data : Bytes) : (start data).Consumes data ⟨data.length, []⟩ := by
  simpa using start_consumes data []

end Reader

/-! ### Reads that succeed -/

variable {ε α β : Type}

/-- Started at `r`, the read succeeds with `a` and leaves the reader at `r'`. -/
def Returns (x : ExceptT ε (StateM Reader) α) (r : Reader) (a : α) (r' : Reader) : Prop :=
  x.run.run r = (.ok a, r')

theorem run_fst_eq_ok_iff {x : ExceptT ε (StateM Reader) α} {r : Reader} {a : α} :
    (x.run.run r).1 = .ok a ↔ ∃ r', Returns x r a r' := by
  constructor
  · intro h
    exact ⟨(x.run.run r).2, Prod.ext h rfl⟩
  · rintro ⟨r', h⟩
    rw [h]

theorem returns_pure {a b : α} {r r' : Reader} :
    Returns (pure a : ExceptT ε (StateM Reader) α) r b r' ↔ b = a ∧ r' = r := by
  show ((.ok a, r) : Except ε α × Reader) = (.ok b, r') ↔ _
  simp [eq_comm]

theorem returns_bind {x : ExceptT ε (StateM Reader) α} {f : α → ExceptT ε (StateM Reader) β}
    {r r'' : Reader} {b : β} :
    Returns (x >>= f) r b r'' ↔ ∃ a r', Returns x r a r' ∧ Returns (f a) r' b r'' := by
  unfold Returns
  rw [Read.run_bind]
  rcases x.run.run r with ⟨e | a, r'⟩
  · constructor
    · intro h
      nomatch h
    · rintro ⟨a, s, hx, -⟩
      nomatch hx
  · constructor
    · intro h
      exact ⟨a, r', rfl, h⟩
    · rintro ⟨a', s, hx, hf⟩
      cases hx
      exact hf

theorem not_returns_throw {e : ε} {r r' : Reader} {a : α} :
    ¬Returns (throw e : ExceptT ε (StateM Reader) α) r a r' := by
  intro h
  nomatch h

theorem returns_ite {c : Prop} [Decidable c] {x y : ExceptT ε (StateM Reader) α}
    {r r' : Reader} {a : α} :
    Returns (if c then x else y) r a r' ↔
      (c ∧ Returns x r a r') ∨ (¬c ∧ Returns y r a r') := by
  split <;> simp_all

theorem returns_get {r a r' : Reader} :
    Returns (get : ExceptT ε (StateM Reader) Reader) r a r' ↔ a = r ∧ r' = r := by
  show ((.ok r, r) : Except ε Reader × Reader) = (.ok a, r') ↔ _
  simp [eq_comm]

/-! ### Reads of items -/

open Reader

theorem returns_raw {length : Nat} {r r' : Reader} {data : Bytes} :
    Returns (Read.raw length) r data r' ↔ data.length = length ∧ r.Consumes data r' := by
  unfold Returns
  rw [Read.run_raw]
  constructor
  · intro h
    split at h
    · nomatch h
    · rename_i hlength
      cases h
      have htake : (r.remaining.take length).length = length := by
        rw [List.length_take]
        omega
      refine ⟨htake, (List.take_append_drop length r.remaining).symm, ?_⟩
      rw [htake]
      rfl
  · rintro ⟨rfl, hremaining, hposition⟩
    rw [if_neg (by simp [hremaining]), hremaining, List.take_left, Reader.advance, hremaining,
      List.drop_left, ← hposition]

theorem returns_word {r r' : Reader} {v : UInt32} :
    Returns Read.word r v r' ↔ r.Consumes (word v) r' := by
  rw [Read.word, returns_bind]
  constructor
  · rintro ⟨b, s, hraw, hpure⟩
    obtain ⟨hlength, hconsumes⟩ := returns_raw.1 hraw
    obtain ⟨rfl, rfl⟩ := returns_pure.1 hpure
    rw [word_ofNat_toNat hlength]
    exact hconsumes
  · intro h
    refine ⟨word v, r', returns_raw.2 ⟨length_word v, h⟩, returns_pure.2 ⟨?_, rfl⟩⟩
    rw [toNat_word, UInt32.ofNat_toNat]

theorem returns_bytes {r r' : Reader} {data : Bytes} :
    Returns Read.bytes r data r' ↔
      data.length < UInt32.size ∧ r.Consumes (string data) r' := by
  rw [Read.bytes, returns_bind]
  constructor
  · rintro ⟨n, s, hword, hraw⟩
    obtain ⟨hlength, hdata⟩ := returns_raw.1 hraw
    have hn : n = UInt32.ofNat data.length := by rw [hlength, UInt32.ofNat_toNat]
    refine ⟨by rw [hlength]; exact n.toNat_lt, ?_⟩
    rw [string, ← hn]
    exact consumes_append.2 ⟨s, returns_word.1 hword, hdata⟩
  · rintro ⟨hlength, hconsumes⟩
    obtain ⟨s, hword, hdata⟩ := consumes_append.1 hconsumes
    refine ⟨_, s, returns_word.2 hword, returns_raw.2 ⟨?_, hdata⟩⟩
    rw [UInt32.toNat_ofNat_of_lt' hlength]

theorem returns_text {r r' : Reader} {t : Text} :
    Returns Read.text r t r' ↔
      t.utf8.length < UInt32.size ∧ r.Consumes (string t.utf8) r' := by
  rw [Read.text, returns_bind]
  constructor
  · rintro ⟨data, s, hbytes, htext⟩
    cases hutf8 : Text.ofUtf8? data with
    | none =>
        rw [hutf8] at htext
        exact absurd htext not_returns_throw
    | some u =>
        rw [hutf8] at htext
        obtain ⟨rfl, rfl⟩ := returns_pure.1 htext
        rw [← Text.eq_utf8_of_ofUtf8? hutf8]
        exact returns_bytes.1 hbytes
  · intro h
    refine ⟨t.utf8, r', returns_bytes.2 h, ?_⟩
    rw [Text.ofUtf8?_utf8]
    exact returns_pure.2 ⟨rfl, rfl⟩

end SshKeys.Wire
