import Mathlib.Data.List.TakeWhile
import Mathlib.Data.Option.Basic
import SshKeys.AuthorizedKeys.File
import SshKeys.Proofs.AuthorizedKeys.KeyData
import SshKeys.Proofs.AuthorizedKeys.Options
import SshKeys.Proofs.PublicKey

/-!
What is read back from the line of an entry.

An entry is written by one set of rules and read by another, stricter one. The
line of an entry is options, key type, key data and a comment that is not empty,
with single spaces between, and the second word does not pass for key data. So
there is only one way to read it, and `managedKey?_entryLine_eq_some_iff` says
when the reader takes that way and what it finds.
-/

namespace SshKeys.AuthorizedKeys

/-! ### Parts of a line -/

/-- A word is a segment, if it has the characters of one. -/
theorem segment?_append_cons {w : Text} (hw : Text.IsWord w) (rest : Text) :
    segment? (w ++ ' ' :: rest) =
      if w.all isSegmentChar then some (w, rest) else none := by
  have hspace : isSegmentChar ' ' = false := by decide
  rw [segment?]
  rcases hdrop : w.dropWhile isSegmentChar with _ | ⟨c, more⟩
  · have hall : ∀ c ∈ w, isSegmentChar c = true := List.dropWhile_eq_nil_iff.1 hdrop
    rw [if_pos (List.all_eq_true.2 hall), Text.span_append_cons hall hspace]
    obtain ⟨c, more, rfl⟩ := List.exists_cons_of_ne_nil hw.ne_nil
    rfl
  -- the run ends inside the word, and not at a space
  · have hsplit : w.takeWhile isSegmentChar ++ c :: more = w := by
      rw [← hdrop, List.takeWhile_append_dropWhile]
    have hmem : c ∈ w := by
      rw [← hsplit]
      exact List.mem_append_right _ List.mem_cons_self
    have hc : isSegmentChar c = false := by
      have := List.head?_dropWhile_not isSegmentChar w
      rw [hdrop] at this
      simpa using this
    have hrun : ∀ c ∈ w.takeWhile isSegmentChar, isSegmentChar c = true :=
      List.all_eq_true.1 List.all_takeWhile
    rw [if_neg fun hall => absurd (List.all_eq_true.1 hall c hmem) (by simp [hc]), ← hsplit,
      List.append_assoc, List.cons_append, Text.span_append_cons hrun hc]
    split
    · rfl
    · rename_i h
      nomatch h
    · rename_i h
      exact absurd ((List.cons.inj (Prod.mk.inj h).2).1 ▸ hmem) hw.space_not_mem
    · rfl

section

variable {options keyType encoded comment : Text}

/-- A public key of three parts, the last of which does not end in a blank. -/
theorem publicKey?_eq_some_iff {key : PublicKey} (hkeyType : Text.IsWord keyType)
    (hencoded : Text.IsWord encoded) (hcomment : Text.IsTrimmed comment) (hne : comment ≠ []) :
    publicKey? (keyType ++ ' ' :: (encoded ++ ' ' :: comment)) = some key ↔
      (∀ c ∈ keyType, isSegmentChar c = true) ∧
      ∃ data fields, encoded = Base64.encodeText data ∧
        readKey? data = some (keyType, fields) ∧
        key = ⟨keyType, canonicalData keyType fields, comment⟩ := by
  have htrim : Text.trimRight (keyType ++ ' ' :: (encoded ++ ' ' :: comment)) =
      keyType ++ ' ' :: (encoded ++ ' ' :: comment) := by
    apply Text.trimRight_of_isTrimmed
    simpa using hkeyType.isTrimmed.append hkeyType.ne_nil hcomment hne (' ' :: encoded ++ [' '])
  simp only [publicKey?, htrim, segment?_append_cons hkeyType, Option.bind_eq_bind,
    Option.bind_eq_some_iff, Prod.exists, toOption_eq_some_iff, Base64.decode_utf8_eq_ok_iff,
    Option.ite_none_right_eq_some, Option.guard_eq_some', List.all_eq_true]
  constructor
  · rintro ⟨_, _, ⟨hsegment, ⟨⟩⟩, encoded', comment', hparts, data, rfl, _, fields, hread, ⟨⟩, rfl,
      hkey⟩
    rw [segment?_append_cons hencoded, Option.ite_none_right_eq_some] at hparts
    obtain ⟨-, ⟨⟩⟩ := hparts
    cases hkey
    rw [Text.trimRight_of_isTrimmed hcomment]
    exact ⟨hsegment, data, fields, rfl, hread, rfl⟩
  · rintro ⟨hsegment, data, fields, rfl, hread, rfl⟩
    have hchars : ∀ c ∈ Base64.encodeText data, isSegmentChar c = true :=
      Base64.forall_mem_encodeText (by decide) (by decide) data
    refine ⟨keyType, _, ⟨hsegment, rfl⟩, Base64.encodeText data, comment, ?_, data, rfl, keyType,
      fields, hread, (), rfl, ?_⟩
    · rw [segment?_append_cons hencoded, if_pos (List.all_eq_true.2 hchars)]
    · rw [Text.trimRight_of_isTrimmed hcomment]
      rfl

/-- The type of a key is no base64 text. -/
theorem ne_encodeText_of_typeStart (h : typeStart.isPrefixOf keyType = true) (data : Bytes) :
    keyType ≠ Base64.encodeText data := by
  rintro rfl
  obtain ⟨rest, hrest⟩ := List.isPrefixOf_iff_prefix.1 h
  have hdash : '-' ∈ Base64.encodeText data := by
    rw [← hrest]
    exact List.mem_append_left rest (by decide)
  exact Base64.ne_dash_of_mem_encodeText hdash rfl

theorem optionsAndKey?_eq_some_iff {entry : Entry} (hoptions : Text.IsWord options) (rest : Text) :
    optionsAndKey? (options ++ ' ' :: rest) = some entry ↔
      (∀ c ∈ options, isOptionChar c = true) ∧ publicKey? rest = some entry.key ∧
        entry.options = options := by
  have hrun : ∀ c ∈ options, (c != ' ') = true := by
    intro c hc
    rw [bne_iff_ne]
    rintro rfl
    exact hoptions.space_not_mem hc
  rw [optionsAndKey?, Text.span_append_cons hrun (by simp)]
  show (if options.all isOptionChar then (publicKey? rest).map fun key => ⟨options, key⟩
    else none : Option Entry) = _ ↔ _
  rw [Option.ite_none_right_eq_some, List.all_eq_true, Option.map_eq_some_iff]
  refine and_congr_right fun _ => ?_
  constructor
  · rintro ⟨key, hkey, rfl⟩
    exact ⟨hkey, rfl⟩
  · rintro ⟨hkey, rfl⟩
    exact ⟨entry.key, hkey, rfl⟩

/-- A line of four parts is options and a public key, as its second word is no key data. -/
theorem ofLine?_eq_some_iff {entry : Entry} (hoptions : Text.IsWord options)
    (hkeyType : Text.IsWord keyType) (htype : typeStart.isPrefixOf keyType = true)
    (hencoded : Text.IsWord encoded) (hcomment : Text.IsTrimmed comment) (hne : comment ≠ []) :
    Entry.ofLine? (options ++ ' ' :: (keyType ++ ' ' :: (encoded ++ ' ' :: comment))) =
        some entry ↔
      (∀ c ∈ options, isOptionChar c = true) ∧
        publicKey? (keyType ++ ' ' :: (encoded ++ ' ' :: comment)) = some entry.key ∧
        entry.options = options := by
  let rest := keyType ++ ' ' :: (encoded ++ ' ' :: comment)
  -- the line is first taken for a key without options, whose data would be the key type
  have hbare : publicKey? (options ++ ' ' :: rest) = none := by
    rw [Option.eq_none_iff_forall_ne_some]
    intro key hkey
    have hafter : Text.IsTrimmed (encoded ++ ' ' :: comment) := by
      simpa using hencoded.isTrimmed.append hencoded.ne_nil hcomment hne [' ']
    obtain ⟨-, data, -, hdata, -⟩ :=
      (publicKey?_eq_some_iff hoptions hkeyType hafter (by simp)).1 hkey
    exact ne_encodeText_of_typeStart htype data hdata
  have hcount : 3 ≤ (options ++ ' ' :: rest).count ' ' := by
    simp only [rest, List.count_append, List.count_cons_self]
    omega
  have hzero : ¬(options ++ ' ' :: rest).count ' ' = 0 := by omega
  have htwo : ¬(options ++ ' ' :: rest).count ' ' ≤ 2 := by omega
  show Entry.ofLine? (options ++ ' ' :: rest) = some entry ↔ _
  rw [← optionsAndKey?_eq_some_iff hoptions rest]
  simp only [Entry.ofLine?, if_neg hzero, if_neg htwo, hbare, Option.map_none, Option.none_or]

end

/-! ### Lines of entries -/

theorem exists_marker_infix (comment : List Text) :
    ∃ w ∈ markedWords comment, marker <:+: w := by
  unfold markedWords
  split
  · rename_i h
    obtain ⟨w, hw, hmarker⟩ := List.any_eq_true.1 h
    exact ⟨w, hw, Text.contains_iff.1 hmarker⟩
  · exact ⟨marker, by simp, List.infix_refl _⟩

theorem isWord_marker : Text.IsWord marker :=
  Text.words_eq_singleton_iff.1 (by decide +kernel)

theorem markedWords_ne_nil (comment : List Text) : markedWords comment ≠ [] := by
  obtain ⟨w, hw, -⟩ := exists_marker_infix comment
  exact List.ne_nil_of_mem hw

/-- What options, key type and key data have to be like for their line to be read back, and the
fields of the key that is found. -/
structure IsReadable (options keyType : Text) (data : Bytes) (fields : List Bytes) : Prop where
  noHash : options.head? ≠ some '#'
  optionChars : ∀ c ∈ options, isOptionChar c = true
  typeChars : ∀ c ∈ keyType, isSegmentChar c = true
  read : readKey? data = some (keyType, fields)

theorem managedKey?_eq_some_iff {line : Text} {listed : ListedKey} :
    managedKey? line = some listed ↔
      line.trim ≠ [] ∧ line.trim.head? ≠ some '#' ∧ marker <:+: line.trim ∧
        ∃ entry, Entry.ofLine? line.trim = some entry ∧ marker <:+: entry.key.comment ∧
          listed = ⟨entry.key.algorithm, entry.key.fingerprint, entry.key.comment⟩ := by
  simp only [managedKey?, Option.bind_eq_bind, Option.bind_eq_some_iff, Option.guard_eq_some',
    Text.contains_iff]
  constructor
  · rintro ⟨⟨⟩, ⟨hne, hhash, hmarker⟩, entry, hentry, ⟨⟩, hcomment, hlisted⟩
    cases hlisted
    exact ⟨hne, hhash, hmarker, entry, hentry, hcomment, rfl⟩
  · rintro ⟨hne, hhash, hmarker, entry, hentry, hcomment, rfl⟩
    exact ⟨(), ⟨hne, hhash, hmarker⟩, entry, hentry, (), hcomment, rfl⟩

/-! ### Keys in texts -/

variable {text keyType : Text} {data : Bytes} {before comment : List Text}

theorem IsKeyWords.isWord_of_mem {encoded w : Text}
    (h : IsKeyWords text.words before keyType encoded comment)
    (hw : w ∈ before ++ keyType :: encoded :: comment) : Text.IsWord w :=
  Text.isWord_of_mem_words (h.words ▸ hw)

/-- A text holds a key, with these words before it and behind it. -/
structure HasKey (text : Text) (before : List Text) (keyType : Text) (data : Bytes)
    (comment : List Text) : Prop where
  isKeyWords : IsKeyWords text.words before keyType (Base64.encodeText data) comment
  embedded : PublicKey.embeddedAlgorithm data = .ok keyType

theorem ManagedEntry.ofText_eq_ok_iff_hasKey {entry : ManagedEntry} :
    ManagedEntry.ofText text = .ok entry ↔
      ∃ before keyType data comment, HasKey text before keyType data comment ∧
        entry = ⟨entryLine before keyType (Base64.encodeText data) comment,
          PublicKey.fingerprintOf data⟩ := by
  rw [ManagedEntry.ofText_eq_ok_iff]
  constructor
  · rintro ⟨before, keyType, encoded, comment, key, hwords, hparse, rfl⟩
    have hkeyType : Text.IsWord keyType := hwords.isWord_of_mem (by simp)
    have hencoded : Text.IsWord encoded := hwords.isWord_of_mem (by simp)
    obtain ⟨data, rfl, hembedded, rfl⟩ :=
      (PublicKey.parse_join_eq_ok_iff hkeyType hencoded).1 hparse
    exact ⟨before, keyType, data, comment, ⟨hwords, hembedded⟩, rfl⟩
  · rintro ⟨before, keyType, data, comment, ⟨hwords, hembedded⟩, rfl⟩
    have hkeyType : Text.IsWord keyType := hwords.isWord_of_mem (by simp)
    have hencoded : Text.IsWord (Base64.encodeText data) := hwords.isWord_of_mem (by simp)
    exact ⟨before, keyType, _, comment, _, hwords,
      (PublicKey.parse_join_eq_ok_iff hkeyType hencoded).2 ⟨data, rfl, hembedded, rfl⟩, rfl⟩

theorem entryLine_eq (before : List Text) (keyType encoded : Text) (comment : List Text) :
    entryLine before keyType encoded comment =
      entryOptions before ++ ' ' :: (keyType ++ ' ' ::
        (encoded ++ ' ' :: Text.join [' '] (markedWords comment))) := by
  obtain ⟨w, ws, hwords⟩ := List.exists_cons_of_ne_nil (markedWords_ne_nil comment)
  simp only [entryLine, hwords, Text.join_cons_cons, List.append_assoc, List.singleton_append]

namespace HasKey

variable (h : HasKey text before keyType data comment)

include h

theorem isWord_keyType : Text.IsWord keyType :=
  h.isKeyWords.isWord_of_mem (by simp)

theorem isWord_data : Text.IsWord (Base64.encodeText data) :=
  Base64.isWord_encodeText (PublicKey.ne_nil_of_embeddedAlgorithm h.embedded)

theorem isWord_options : Text.IsWord (entryOptions before) := by
  refine ⟨?_, not_blank_of_mem_entryOptions h.isKeyWords⟩
  cases before with
  | nil => decide
  | cons first before =>
      have hfirst : Text.IsWord first := h.isKeyWords.isWord_of_mem (by simp)
      exact restrictedOptions_ne_nil hfirst.ne_nil

theorem isWord_of_mem_markedWords : ∀ w ∈ markedWords comment, Text.IsWord w := by
  have hcomment : ∀ w ∈ comment, Text.IsWord w := fun w hw =>
    h.isKeyWords.isWord_of_mem (by simp [hw])
  unfold markedWords
  split
  · exact hcomment
  · intro w hw
    rcases List.mem_append.1 hw with hw | hw
    · exact hcomment w hw
    · rw [List.mem_singleton.1 hw]
      exact isWord_marker

theorem isWord_of_mem_line :
    ∀ w ∈ entryOptions before :: keyType :: Base64.encodeText data :: markedWords comment,
      Text.IsWord w := by
  simp only [List.forall_mem_cons]
  exact ⟨h.isWord_options, h.isWord_keyType, h.isWord_data, h.isWord_of_mem_markedWords⟩

theorem isTrimmed_line :
    entryLine before keyType (Base64.encodeText data) comment ≠ [] ∧
      Text.IsTrimmed (entryLine before keyType (Base64.encodeText data) comment) :=
  Text.isTrimmed_join (List.cons_ne_nil _ _) h.isWord_of_mem_line

theorem newline_not_mem_line :
    '\n' ∉ entryLine before keyType (Base64.encodeText data) comment :=
  Text.not_mem_join (by decide) fun w hw =>
    (h.isWord_of_mem_line w hw).not_mem_of_isBlank (by decide)

theorem head?_line :
    (entryLine before keyType (Base64.encodeText data) comment).head? =
      (entryOptions before).head? := by
  rw [entryLine_eq, List.head?_append_of_ne_nil _ h.isWord_options.ne_nil]

/-- The entry on the line, in which the canonical form of the key data counts and not the data as
it was given. -/
theorem ofLine?_line_eq_some_iff {entry : Entry} :
    Entry.ofLine? (entryLine before keyType (Base64.encodeText data) comment) = some entry ↔
      (∀ c ∈ entryOptions before, isOptionChar c = true) ∧
        (∀ c ∈ keyType, isSegmentChar c = true) ∧
        ∃ fields, readKey? data = some (keyType, fields) ∧
          entry = ⟨entryOptions before, keyType, canonicalData keyType fields,
            Text.join [' '] (markedWords comment)⟩ := by
  obtain ⟨hne, hcomment⟩ :=
    Text.isTrimmed_join (markedWords_ne_nil comment) h.isWord_of_mem_markedWords
  rw [entryLine_eq, ofLine?_eq_some_iff h.isWord_options h.isWord_keyType h.isKeyWords.keyType
    h.isWord_data hcomment hne, publicKey?_eq_some_iff h.isWord_keyType h.isWord_data hcomment hne]
  obtain ⟨options, key⟩ := entry
  constructor
  · rintro ⟨hoptions, ⟨htype, data', fields, hdata, hread, rfl⟩, rfl⟩
    obtain rfl := Base64.encodeText_inj.1 hdata
    exact ⟨hoptions, htype, fields, hread, rfl⟩
  · rintro ⟨hoptions, htype, fields, hread, hentry⟩
    cases hentry
    exact ⟨hoptions, ⟨htype, data, fields, rfl, hread, rfl⟩, rfl⟩

end HasKey

/-- What is listed of an entry, if its line can be read back. -/
theorem managedKey?_entryLine_eq_some_iff (h : HasKey text before keyType data comment)
    {listed : ListedKey} :
    managedKey? (entryLine before keyType (Base64.encodeText data) comment) = some listed ↔
      ∃ fields, IsReadable (entryOptions before) keyType data fields ∧
        listed = ⟨keyType, PublicKey.fingerprintOf (canonicalData keyType fields),
          Text.join [' '] (markedWords comment)⟩ := by
  obtain ⟨hne, htrimmed⟩ := h.isTrimmed_line
  obtain ⟨w, hw, hmarker⟩ := exists_marker_infix comment
  rw [managedKey?_eq_some_iff, Text.trim_of_isTrimmed htrimmed, h.head?_line]
  simp only [h.ofLine?_line_eq_some_iff]
  constructor
  · rintro ⟨-, hhash, -, entry, ⟨hoptions, htype, fields, hread, rfl⟩, -, rfl⟩
    exact ⟨fields, ⟨hhash, hoptions, htype, hread⟩, rfl⟩
  · rintro ⟨fields, ⟨hhash, hoptions, htype, hread⟩, rfl⟩
    exact ⟨hne, hhash, hmarker.trans (Text.infix_join_of_mem (by simp [hw])), _,
      ⟨hoptions, htype, fields, hread, rfl⟩, hmarker.trans (Text.infix_join_of_mem hw), rfl⟩

/-! ### Ed25519 keys -/

variable {point : Ed25519.KeyOctets}

theorem hasKey_keyData
    (hwords : text.words = before ++ Ed25519.algorithm ::
      Base64.encodeText (Ed25519.keyData point) :: comment)
    (hbefore : ∀ w ∈ before, typeStart.isPrefixOf w = false) :
    HasKey text before Ed25519.algorithm (Ed25519.keyData point) comment :=
  ⟨⟨hwords, hbefore, by decide⟩, embeddedAlgorithm_keyData point⟩

/-- A key without options of its own is read back. -/
theorem isReadable_keyData (point : Ed25519.KeyOctets) :
    IsReadable (entryOptions []) Ed25519.algorithm (Ed25519.keyData point) [point.val] :=
  ⟨by decide, List.all_eq_true.1 (by decide), List.all_eq_true.1 (by decide),
    readKey?_keyData point⟩

end SshKeys.AuthorizedKeys
