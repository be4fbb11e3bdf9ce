import SshKeys.PrivateKey
import SshKeys.Proofs.Except
import SshKeys.Proofs.Wire.Reading

/-!
The private key container as a grammar.

`IsWrittenAs` says which octets are a container of a key. `decode_eq_ok_iff`
says that decoding accepts these and no others: each step of the decoder is
matched with the octets it consumes, and the whole is then one concatenation.
Padding needs an argument of its own. The decoder only looks whether the octets
that are left count up and are fewer than a block, and that the section fills
whole blocks; together this leaves one padding.
-/

namespace SshKeys

/-- The name under which fields of this kind are stored. -/
def KeyMaterial.keyType : KeyMaterial → Text
  | .ed25519 _ _ => PrivateKey.ed25519Type
  | .rsa _ _ _ _ _ _ => PrivateKey.rsaType

namespace PrivateKey

open Wire Wire.Reader

/-- The private section of a key up to its padding. -/
def unpadded (key : PrivateKey) (check : UInt32) : Bytes :=
  checkedSection check key.keyType key.fields.toList key.comment

/-- `data` is the container of `key`, written with these options and this check-int, and all of
its strings have lengths that fit a word. -/
structure IsWrittenAs (key : PrivateKey) (kdfOptions : Bytes) (check : UInt32) (data : Bytes) :
    Prop where
  cipher : key.cipher = noCipher
  kdf : key.kdf = noCipher
  checkInts : key.checkInts = (check, check)
  keyType : key.keyType = key.fields.keyType
  padding : key.padding = paddingAfter (key.unpadded check).length
  data : data = container kdfOptions key.publicData (pad (key.unpadded check))
  kdfOptions_lt : kdfOptions.length < UInt32.size
  publicData_lt : key.publicData.length < UInt32.size
  section_lt : (pad (key.unpadded check)).length < UInt32.size

/-! ### The layout -/

theorem checkedSection_eq (check : UInt32) (keyType : Text) (fields : List Bytes)
    (comment : Text) :
    checkedSection check keyType fields comment =
      word check ++ (word check ++ (string keyType.utf8 ++ (Wire.encode (fields.map .string) ++
        string comment.utf8))) := by
  simp [checkedSection, Wire.encode, Item.encode]

theorem container_eq (kdfOptions publicData paddedSection : Bytes) :
    container kdfOptions publicData paddedSection =
      magic ++ (string noCipher.utf8 ++ (string noCipher.utf8 ++ (string kdfOptions ++ (word 1 ++
        (string publicData ++ string paddedSection))))) := by
  simp [container, Wire.encode, Item.encode]

theorem length_le_length_strings {f : Bytes} {fs : List Bytes} (h : f ∈ fs) :
    f.length ≤ (Wire.encode (fs.map .string)).length := by
  induction fs with
  | nil => simp at h
  | cons g fs ih =>
      simp only [List.map_cons, encode_cons, Item.encode, List.length_append, length_string]
      rcases List.mem_cons.1 h with rfl | h
      · omega
      · have := ih h
        omega

/-- A section that fits a string has only parts that fit strings. -/
theorem length_parts_le (check : UInt32) (keyType : Text) (fields : List Bytes)
    (comment : Text) :
    keyType.utf8.length ≤ (pad (checkedSection check keyType fields comment)).length ∧
      (∀ f ∈ fields,
        f.length ≤ (pad (checkedSection check keyType fields comment)).length) ∧
      comment.utf8.length ≤ (pad (checkedSection check keyType fields comment)).length := by
  simp only [pad, checkedSection_eq, List.length_append, length_string]
  refine ⟨by omega, ?_, by omega⟩
  intro f hf
  have := length_le_length_strings hf
  omega

namespace Decoder

variable {α : Type} {r r' : Reader}

theorem returns_item {x : Read α} {a : α} : Returns (item x) r a r' ↔ Returns x r a r' := by
  unfold Returns
  show ((x.run.run r).1.mapError KeyError.wire, (x.run.run r).2) = _ ↔ _
  rcases x.run.run r with ⟨e | a, s⟩
  · constructor <;> intro h <;> nomatch h
  · constructor <;> intro h <;> cases h <;> rfl

theorem not_returns_refuse {fault : PrivateKeyFault} {a : α} :
    ¬Returns (refuse fault) r a r' :=
  not_returns_throw

/-- Nothing is returned where a check fails. -/
theorem returns_refuse_if {c : Prop} [Decidable c] {fault : PrivateKeyFault} {x : Decoder α}
    {a : α} :
    Returns (if c then do let _ ← refuse (α := Unit) fault; x else x) r a r' ↔
      ¬c ∧ Returns x r a r' := by
  rw [returns_ite, returns_bind]
  constructor
  · rintro (⟨-, _, _, h, -⟩ | h)
    · exact absurd h not_returns_refuse
    · exact h
  · exact .inr

theorem returns_refuse_unless {c : Prop} [Decidable c] {fault : PrivateKeyFault} {x : Decoder α}
    {a : α} :
    Returns (if c then x else do let _ ← refuse (α := Unit) fault; x) r a r' ↔
      c ∧ Returns x r a r' := by
  rw [← ite_not, returns_refuse_if, Decidable.not_not]

theorem returns_lift {x : Except KeyError α} {a : α} :
    Returns (liftM x : Decoder α) r a r' ↔ x = .ok a ∧ r' = r := by
  cases x with
  | error e =>
      constructor
      · intro h
        nomatch h
      · rintro ⟨h, -⟩
        nomatch h
  | ok b =>
      show ((.ok b, r) : Except KeyError α × Reader) = (.ok a, r') ↔ _
      simp [eq_comm]

/-! ### Fields -/

theorem returns_fields {keyType : Text} {found : KeyMaterial} :
    Returns (fields keyType) r found r' ↔
      keyType = found.keyType ∧ (∀ f ∈ found.toList, f.length < UInt32.size) ∧
        r.Consumes (Wire.encode (found.toList.map .string)) r' := by
  constructor
  · intro h
    simp only [fields, returns_ite, returns_bind, returns_item, returns_bytes, returns_pure] at h
    rcases h with ⟨rfl, point, r₁, ⟨hpoint, h₁⟩, secret, r₂, ⟨hsecret, h₂⟩, rfl, rfl⟩ | ⟨-, h⟩
    · simp only [KeyMaterial.toList, List.forall_mem_cons, consumes_strings_cons,
        consumes_strings_nil]
      exact ⟨rfl, ⟨hpoint, hsecret, by simp⟩, r₁, h₁, r', h₂, rfl⟩
    rcases h with ⟨rfl, n, r₁, ⟨hn, h₁⟩, e, r₂, ⟨he, h₂⟩, d, r₃, ⟨hd, h₃⟩, iqmp, r₄,
      ⟨hiqmp, h₄⟩, p, r₅, ⟨hp, h₅⟩, q, r₆, ⟨hq, h₆⟩, rfl, rfl⟩ | ⟨-, h⟩
    · simp only [KeyMaterial.toList, List.forall_mem_cons, consumes_strings_cons,
        consumes_strings_nil]
      exact ⟨rfl, ⟨hn, he, hd, hiqmp, hp, hq, by simp⟩, r₁, h₁, r₂, h₂, r₃, h₃, r₄, h₄, r₅, h₅,
        r', h₆, rfl⟩
    · exact absurd h not_returns_refuse
  · rintro ⟨rfl, hlength, h⟩
    -- the type of the fields settles which of the tests succeeds
    cases found with
    | ed25519 point secret =>
        simp only [KeyMaterial.toList, List.forall_mem_cons, consumes_strings_cons,
          consumes_strings_nil] at hlength h
        obtain ⟨hpoint, hsecret, -⟩ := hlength
        obtain ⟨r₁, h₁, r₂, h₂, rfl⟩ := h
        refine returns_ite.2 (.inl ⟨rfl, ?_⟩)
        simp only [returns_bind, returns_item, returns_bytes, returns_pure]
        exact ⟨point, r₁, ⟨hpoint, h₁⟩, secret, r', ⟨hsecret, h₂⟩, rfl, rfl⟩
    | rsa n e d iqmp p q =>
        simp only [KeyMaterial.toList, List.forall_mem_cons, consumes_strings_cons,
          consumes_strings_nil] at hlength h
        obtain ⟨hn, he, hd, hiqmp, hp, hq, -⟩ := hlength
        obtain ⟨r₁, h₁, r₂, h₂, r₃, h₃, r₄, h₄, r₅, h₅, r₆, h₆, rfl⟩ := h
        have hother : rsaType ≠ ed25519Type := by decide
        refine returns_ite.2 (.inr ⟨hother, returns_ite.2 (.inl ⟨rfl, ?_⟩)⟩)
        simp only [returns_bind, returns_item, returns_bytes, returns_pure]
        exact ⟨n, r₁, ⟨hn, h₁⟩, e, r₂, ⟨he, h₂⟩, d, r₃, ⟨hd, h₃⟩, iqmp, r₄, ⟨hiqmp, h₄⟩,
          p, r₅, ⟨hp, h₅⟩, q, r', ⟨hq, h₆⟩, rfl, rfl⟩

/-! ### The private section -/

theorem isPadding_iff {octets : Bytes} :
    isPadding octets = true ↔
      octets.length < blockSize ∧
        octets = (List.range octets.length).map fun i => UInt8.ofNat (i + 1) := by
  simp [isPadding]

/-- The only padding that makes a body fill whole blocks. -/
theorem isPadding_and_aligned_iff {body octets : Bytes} :
    isPadding octets = true ∧ (body ++ octets).length % blockSize = 0 ↔
      octets = paddingAfter body.length := by
  rw [isPadding_iff, List.length_append]
  constructor
  · rintro ⟨⟨hlength, hoctets⟩, haligned⟩
    -- fewer than a block and up to the end of one: only one count is left
    have hcount : octets.length = (blockSize - body.length % blockSize) % blockSize := by
      unfold blockSize at *
      omega
    rw [paddingAfter, ← hcount]
    exact hoctets
  · rintro rfl
    have hcount : (paddingAfter body.length).length =
        (blockSize - body.length % blockSize) % blockSize := by simp [paddingAfter]
    refine ⟨⟨?_, ?_⟩, ?_⟩
    · rw [hcount]
      exact Nat.mod_lt _ (by decide)
    · rw [hcount]
      rfl
    · rw [hcount]
      unfold blockSize
      omega

theorem returns_privateSection {found : Contents} :
    Returns privateSection r found r' ↔
      ∃ check, found.checkInts = (check, check) ∧ found.keyType = found.fields.keyType ∧
        found.keyType.utf8.length < UInt32.size ∧
        (∀ f ∈ found.fields.toList, f.length < UInt32.size) ∧
        found.comment.utf8.length < UInt32.size ∧
        r.Consumes (checkedSection check found.keyType found.fields.toList found.comment) r' ∧
        found.padding = r'.remaining ∧ isPadding found.padding = true := by
  simp only [privateSection, returns_bind, returns_refuse_if, returns_refuse_unless, returns_item,
    returns_word, returns_text, returns_fields, returns_get, returns_pure]
  simp only [checkedSection_eq, consumes_append]
  constructor
  · rintro ⟨first, r₁, h₁, second, r₂, h₂, hcheck, keyType, r₃, ⟨hkeyType, h₃⟩, fields, r₄,
      ⟨rfl, hfields, h₄⟩, comment, r₅, ⟨hcomment, h₅⟩, _, _, ⟨rfl, rfl⟩, hpadding, rfl, rfl⟩
    obtain rfl := Decidable.not_not.1 hcheck
    exact ⟨first, rfl, rfl, hkeyType, hfields, hcomment, ⟨r₁, h₁, r₂, h₂, r₃, h₃, r₄, h₄, h₅⟩,
      rfl, hpadding⟩
  · rintro ⟨check, hcheckInts, htype, hkeyType, hfields, hcomment,
      ⟨r₁, h₁, r₂, h₂, r₃, h₃, r₄, h₄, h₅⟩, hremaining, hpadding⟩
    obtain ⟨checkInts, keyType, fields, comment, padding⟩ := found
    dsimp only at *
    subst hcheckInts hremaining
    exact ⟨check, r₁, h₁, check, r₂, h₂, by simp, keyType, r₃, ⟨hkeyType, h₃⟩, fields, r₄,
      ⟨htype, hfields, h₄⟩, comment, r', ⟨hcomment, h₅⟩, r', r', ⟨rfl, rfl⟩, hpadding, rfl, rfl⟩

/-- A section that is accepted and fills whole blocks is a padded section, and the other way
round. -/
theorem privateSection_eq_ok_iff {octets : Bytes} (hoctets : octets.length < UInt32.size)
    (found : Contents) :
    octets.length % blockSize = 0 ∧ (privateSection.run.run (.start octets)).1 = .ok found ↔
      ∃ check, found.checkInts = (check, check) ∧ found.keyType = found.fields.keyType ∧
        found.padding = paddingAfter
          (checkedSection check found.keyType found.fields.toList found.comment).length ∧
        octets = pad (checkedSection check found.keyType found.fields.toList found.comment) := by
  simp only [run_fst_eq_ok_iff, returns_privateSection]
  constructor
  · rintro ⟨haligned, r', check, hcheckInts, htype, -, -, -, hconsumes, hremaining, hpadding⟩
    have hsplit : octets = checkedSection check found.keyType found.fields.toList found.comment ++
        found.padding := by
      rw [hremaining]
      exact hconsumes.remaining
    have hpad := isPadding_and_aligned_iff.1 ⟨hpadding, hsplit ▸ haligned⟩
    exact ⟨check, hcheckInts, htype, hpad, by rw [pad, ← hpad]; exact hsplit⟩
  · rintro ⟨check, hcheckInts, htype, hpad, rfl⟩
    obtain ⟨hkeyType, hfields, hcomment⟩ :=
      length_parts_le check found.keyType found.fields.toList found.comment
    refine ⟨length_pad_mod _, _, check, hcheckInts, htype, Nat.lt_of_le_of_lt hkeyType hoctets,
      fun f hf => Nat.lt_of_le_of_lt (hfields f hf) hoctets, Nat.lt_of_le_of_lt hcomment hoctets,
      start_consumes _ _, hpad, ?_⟩
    exact (isPadding_and_aligned_iff.2 hpad).1

/-! ### The container -/

/-- What follows the magic is accepted exactly when the magic in front of it makes a container. -/
theorem body_eq_ok_iff {octets : Bytes} {key : PrivateKey} :
    (body.run.run (.start octets)).1 = .ok key ↔
      ∃ kdfOptions check, key.IsWrittenAs kdfOptions check (magic ++ octets) := by
  rw [run_fst_eq_ok_iff]
  simp only [body, returns_bind, returns_refuse_if, returns_refuse_unless, returns_item,
    returns_word, returns_text, returns_bytes, returns_get, returns_lift, returns_pure]
  constructor
  · rintro ⟨_, cipher, r₁, ⟨-, h₁⟩, kdf, r₂, ⟨-, h₂⟩, kdfOptions, r₃, ⟨hoptions, h₃⟩, hnone, count,
      r₄, h₄, hcount, publicData, r₅, ⟨hpublic, h₅⟩, sealed, r₆, ⟨hsealed, h₆⟩, _, _, ⟨rfl, rfl⟩,
      hend, haligned, found, _, ⟨hfound, rfl⟩, rfl, rfl⟩
    obtain ⟨rfl, rfl⟩ : cipher = noCipher ∧ kdf = noCipher := by simpa using hnone
    obtain rfl : count = 1 := Decidable.not_not.1 hcount
    obtain ⟨check, hcheckInts, htype, hpadding, rfl⟩ :=
      (privateSection_eq_ok_iff hsealed found).1 ⟨Decidable.not_not.1 haligned, hfound⟩
    have hoctets := (consumes_append.2 ⟨r₁, h₁, consumes_append.2 ⟨r₂, h₂, consumes_append.2
      ⟨r₃, h₃, consumes_append.2 ⟨r₄, h₄, consumes_append.2 ⟨r₅, h₅, h₆⟩⟩⟩⟩⟩).remaining
    -- nothing follows the section, so the parts are all there is
    rw [List.isEmpty_iff.1 hend, List.append_nil] at hoctets
    refine ⟨kdfOptions, check, rfl, rfl, hcheckInts, htype, hpadding, ?_, hoptions, hpublic,
      hsealed⟩
    rw [container_eq]
    exact congrArg (magic ++ ·) hoctets
  · rintro ⟨kdfOptions, check, h⟩
    obtain ⟨cipher, kdf, publicData, checkInts, keyType, fields, comment, padding⟩ := key
    obtain ⟨rfl, rfl, hcheckInts, htype, hpadding, hdata, hoptions, hpublic, hsealed⟩ := h
    have hconsumes := start_consumes_all octets
    rw [container_eq] at hdata
    obtain rfl := List.append_cancel_left hdata
    simp only [consumes_append] at hconsumes
    obtain ⟨r₁, h₁, r₂, h₂, r₃, h₃, r₄, h₄, r₅, h₅, h₆⟩ := hconsumes
    have hsection := privateSection_eq_ok_iff hsealed
      ⟨checkInts, keyType, fields, comment, padding⟩
    obtain ⟨haligned, hfound⟩ := hsection.2 ⟨check, hcheckInts, htype, hpadding, rfl⟩
    have hnone : noCipher.utf8.length < UInt32.size := by decide
    exact ⟨_, noCipher, r₁, ⟨hnone, h₁⟩, noCipher, r₂, ⟨hnone, h₂⟩, kdfOptions, r₃, ⟨hoptions, h₃⟩,
      by simp, 1, r₄, h₄, by simp, publicData, r₅, ⟨hpublic, h₅⟩, _, _, ⟨hsealed, h₆⟩, _, _,
      ⟨rfl, rfl⟩, rfl, not_not_intro haligned, _, _, ⟨hfound, rfl⟩, rfl, rfl⟩

end Decoder

theorem ofContainer_eq_ok_iff {data : Bytes} {key : PrivateKey} :
    ofContainer data = .ok key ↔ ∃ kdfOptions check, key.IsWrittenAs kdfOptions check data := by
  rw [ofContainer]
  split
  · rename_i hmagic
    obtain ⟨octets, rfl⟩ := List.isPrefixOf_iff_prefix.1 hmagic
    rw [List.drop_left]
    exact Decoder.body_eq_ok_iff
  · rename_i hmagic
    constructor
    · intro h
      nomatch h
    · rintro ⟨kdfOptions, check, h⟩
      have hdata := h.data
      rw [container_eq] at hdata
      exact absurd (List.isPrefixOf_iff_prefix.2 ⟨_, hdata.symm⟩) hmagic

/-- Decoding accepts the armored containers of keys and nothing else, and finds all there is in
them but the options of the key derivation. -/
theorem decode_eq_ok_iff (text : Text) (key : PrivateKey) :
    decode text = .ok key ↔
      ∃ data, Armor.unwrap text = .ok data ∧
        ∃ kdfOptions check, key.IsWrittenAs kdfOptions check data := by
  rw [decode, bind_eq_ok_iff]
  constructor
  · rintro ⟨data, hunwrap, h⟩
    exact ⟨data, hunwrap, ofContainer_eq_ok_iff.1 h⟩
  · rintro ⟨data, hunwrap, h⟩
    exact ⟨data, hunwrap, ofContainer_eq_ok_iff.2 h⟩

end PrivateKey

end SshKeys
