import SshKeys.Proofs.AuthorizedKeys.Reading

/-!
The normal form of entries.

Making an entry of a text takes the blanks out that are not needed, with all
newlines among them, and adds options and a marker where there are none. What
was added is recognised again: the options hold the restriction and do not begin
like a key type, and one of the comment words has the marker in it. So the line
of an entry makes the same entry (`hasKey_entryLine`).
-/

namespace SshKeys

namespace Text

/-- Words with single spaces between them. -/
structure IsClean (line : Text) : Prop where
  blank : ∀ c ∈ line, isBlank c = true → c = ' '
  trimmed : IsTrimmed line
  single : ¬[' ', ' '] <:+: line

theorem splitOn_join {ws : List Text} (hne : ws ≠ []) (h : ∀ w ∈ ws, IsWord w) :
    (join [' '] ws).splitOn ' ' = ws :=
  List.splitOn_intercalate ' ' (fun w hw => (h w hw).space_not_mem) hne

theorem isClean_join {ws : List Text} (hne : ws ≠ []) (h : ∀ w ∈ ws, IsWord w) :
    IsClean (join [' '] ws) := by
  refine ⟨fun c hc hblank => ?_, (isTrimmed_join hne h).2, ?_⟩
  · by_contra hspace
    exact not_mem_join hspace (fun w hw => (h w hw).not_mem_of_isBlank hblank) hc
  -- between two spaces there would be an empty word
  · rintro ⟨front, back, hline⟩
    have hsplit : (front ++ ' ' :: ([] ++ ' ' :: back)).splitOn ' ' = ws := by
      rw [← splitOn_join hne h, ← hline]
      simp
    have hempty : [] ∈ ws := by
      rw [← hsplit, List.splitOn_append_cons_self, List.splitOn_append_cons_self]
      simp
    exact (h [] hempty).ne_nil rfl

end Text

namespace AuthorizedKeys

/-! ### What is recognised again -/

theorem restrictedOptions_restrictedOptions (options : Text) :
    restrictedOptions (restrictedOptions options) = restrictedOptions options := by
  by_cases h : restriction ∈ options.splitOn ','
  · have hkept : restrictedOptions options = options := if_pos (List.contains_iff_mem.2 h)
    rw [hkept, hkept]
  · have hadded : restrictedOptions options = defaultOptions ++ ',' :: options :=
      if_neg fun hcontains => h (List.contains_iff_mem.1 hcontains)
    have hparts : defaultOptions = restriction ++ ',' :: "pty".toList := by decide
    have hfound : restriction ∈ (defaultOptions ++ ',' :: options).splitOn ',' := by
      rw [hparts, List.append_assoc, List.cons_append,
        List.splitOn_append_cons_self_of_not_mem (by decide)]
      exact List.mem_cons_self
    rw [hadded]
    exact if_pos (List.contains_iff_mem.2 hfound)

theorem markedWords_markedWords (words : List Text) :
    markedWords (markedWords words) = markedWords words := by
  obtain ⟨w, hw, hmarker⟩ := exists_marker_infix words
  have hany : (markedWords words).any (fun w => Text.contains w marker) = true :=
    List.any_eq_true.2 ⟨w, hw, Text.contains_iff.2 hmarker⟩
  exact if_pos hany

/-- Options given as one word, and the default ones, are restricted as they are. -/
theorem entryOptions_entryOptions (before : List Text) :
    entryOptions [entryOptions before] = entryOptions before := by
  cases before with
  | nil => decide
  | cons first before => exact restrictedOptions_restrictedOptions first

/-- Options are not taken for a key type. -/
theorem not_typeStart_entryOptions {before : List Text}
    (h : ∀ w ∈ before, typeStart.isPrefixOf w = false) :
    typeStart.isPrefixOf (entryOptions before) = false := by
  cases before with
  | nil => decide
  | cons first before =>
      rw [entryOptions, restrictedOptions]
      split
      · exact h first List.mem_cons_self
      · rfl

variable {text keyType : Text} {data : Bytes} {before comment : List Text}

theorem HasKey.words_entryLine (h : HasKey text before keyType data comment) :
    (entryLine before keyType (Base64.encodeText data) comment).words =
      entryOptions before :: keyType :: Base64.encodeText data :: markedWords comment := by
  have hwords {ws : List Text} (hws : ∀ w ∈ ws, Text.IsWord w) : ws.flatMap Text.words = ws := by
    rw [List.flatMap_def, List.map_congr_left fun w hw => Text.words_eq_singleton_iff.2 (hws w hw),
      ← List.flatMap_def, List.flatMap_singleton']
  rw [entryLine, Text.words_join, hwords h.isWord_of_mem_line]

/-- In the line of an entry there is the key of the entry, with one word before it. -/
theorem HasKey.hasKey_entryLine (h : HasKey text before keyType data comment) :
    HasKey (entryLine before keyType (Base64.encodeText data) comment) [entryOptions before] keyType
      data (markedWords comment) := by
  refine ⟨⟨h.words_entryLine, ?_, h.isKeyWords.keyType⟩, h.embedded⟩
  intro w hw
  rw [List.mem_singleton.1 hw]
  exact not_typeStart_entryOptions h.isKeyWords.before

theorem entryLine_entryLine (before : List Text) (keyType encoded : Text) (comment : List Text) :
    entryLine [entryOptions before] keyType encoded (markedWords comment) =
      entryLine before keyType encoded comment := by
  rw [entryLine, entryOptions_entryOptions, markedWords_markedWords, entryLine]

/-! ### Normal forms -/

/-- The words from the first one on that begins like a key type. -/
def keyWords (text : Text) : List Text :=
  text.words.dropWhile fun w => !typeStart.isPrefixOf w

/-- What is put behind the words of a comment: the marker, if none of them has it. -/
inductive IsMark (words : List Text) : List Text → Prop
  | found {w : Text} (hw : w ∈ words) (hmarker : marker <:+: w) : IsMark words []
  | added (hnone : ∀ w ∈ words, ¬marker <:+: w) : IsMark words [marker]

/-- The one line of an entry, made of the words of a text. -/
structure IsNormalForm (text : Text) (entry : ManagedEntry) : Prop where
  clean : entry.line.IsClean
  words : ∃ options mark, entry.line.splitOn ' ' = options :: (keyWords text ++ mark) ∧
    IsMark ((keyWords text).drop 2) mark
  key : ∃ options rest key, entry.line = options ++ ' ' :: rest ∧ ' ' ∉ options ∧
    PublicKey.parse rest = .ok key ∧ key.fingerprint = entry.fingerprint
  again : ManagedEntry.ofText entry.line = .ok entry

theorem IsKeyWords.keyWords_eq {encoded : Text}
    (h : IsKeyWords text.words before keyType encoded comment) :
    keyWords text = keyType :: encoded :: comment := by
  have hbefore : ∀ w ∈ before, (!typeStart.isPrefixOf w) = true := fun w hw => by
    simp [h.before w hw]
  rw [keyWords, h.words, List.dropWhile_append_of_pos hbefore,
    List.dropWhile_cons_of_neg (by simp [h.keyType])]

theorem exists_isMark (words : List Text) :
    ∃ mark, markedWords words = words ++ mark ∧ IsMark words mark := by
  unfold markedWords
  split
  · rename_i hany
    obtain ⟨w, hw, hmarker⟩ := List.any_eq_true.1 hany
    exact ⟨[], (List.append_nil words).symm, .found hw (Text.contains_iff.1 hmarker)⟩
  · rename_i hany
    exact ⟨[marker], rfl, .added fun w hw hmarker =>
      hany (List.any_eq_true.2 ⟨w, hw, Text.contains_iff.2 hmarker⟩)⟩

/-- After the options there is a line of the key. -/
theorem HasKey.parse_afterOptions (h : HasKey text before keyType data comment) :
    PublicKey.parse (keyType ++ ' ' ::
        (Base64.encodeText data ++ ' ' :: Text.join [' '] (markedWords comment))) =
      .ok ⟨keyType, data, Text.join [' '] (markedWords comment)⟩ := by
  obtain ⟨hne, htrimmed⟩ :=
    Text.isTrimmed_join (markedWords_ne_nil comment) h.isWord_of_mem_markedWords
  have hparse := PublicKey.parse_line ⟨keyType, data, Text.join [' '] (markedWords comment)⟩
    h.isWord_keyType.ne_nil h.isWord_keyType.not_blank h.embedded
  rw [Text.trim_of_isTrimmed htrimmed] at hparse
  rw [← hparse, PublicKey.line, if_neg hne]
  simp

/-- An entry is one clean line with the words of the text in it, and makes itself again. -/
theorem isNormalForm_of_ofText {entry : ManagedEntry} (h : ManagedEntry.ofText text = .ok entry) :
    IsNormalForm text entry := by
  obtain ⟨before, keyType, data, comment, hkey, rfl⟩ := ManagedEntry.ofText_eq_ok_iff_hasKey.1 h
  obtain ⟨mark, hmarked, hmark⟩ := exists_isMark comment
  have hwords := hkey.isKeyWords.keyWords_eq
  refine ⟨?_, ⟨entryOptions before, mark, ?_, ?_⟩, ?_, ?_⟩
  · exact Text.isClean_join (List.cons_ne_nil _ _) hkey.isWord_of_mem_line
  · rw [hwords]
    show (Text.join [' '] _).splitOn ' ' = _
    rw [Text.splitOn_join (List.cons_ne_nil _ _) hkey.isWord_of_mem_line, hmarked]
    rfl
  · rwa [hwords]
  · exact ⟨_, _, _, entryLine_eq .., hkey.isWord_options.space_not_mem, hkey.parse_afterOptions,
      rfl⟩
  · refine ManagedEntry.ofText_eq_ok_iff_hasKey.2 ⟨_, _, _, _, hkey.hasKey_entryLine, ?_⟩
    rw [entryLine_entryLine]

/-- Options that look almost like a key type, words that are dropped, and a comment of two lines
with the marker inside one of its words. -/
theorem isNormalForm_of_ofText_two_lines :
    let text := ",ssh- dropped\u2003".toList ++ sampleKey ++ "\u00a0my-ssh-keypair-2\r\nroot".toList
    ∃ entry, ManagedEntry.ofText text = .ok entry ∧ IsNormalForm text entry ∧
      entry.line =
        "restrict,pty,,ssh- ".toList ++ sampleKey ++ " my-ssh-keypair-2 root".toList := by
  intro text
  obtain ⟨key, hkey⟩ := exists_parse_sampleKey
  have hentry : ManagedEntry.ofText text = .ok _ := ManagedEntry.ofText_eq_ok_iff.2
    ⟨[",ssh-".toList, "dropped".toList], sampleType, sampleData,
      ["my-ssh-keypair-2".toList, "root".toList], key,
      ⟨by decide +kernel, by decide, by decide⟩, hkey, rfl⟩
  refine ⟨_, hentry, isNormalForm_of_ofText hentry, ?_⟩
  show entryLine [",ssh-".toList, "dropped".toList] sampleType sampleData
    ["my-ssh-keypair-2".toList, "root".toList] = _
  decide +kernel

end AuthorizedKeys

end SshKeys
