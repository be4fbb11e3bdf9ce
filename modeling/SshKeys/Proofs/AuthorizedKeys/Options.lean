import SshKeys.Proofs.AuthorizedKeys.Managed

/-!
The options of managed entries.

Who reads a line cuts its options at the commas outside quotation marks
(`optionList`), but whether they hold the restriction already is looked for
between any two commas. So the two differ on what a quotation holds, and
`restriction_mem_lineOptions_iff` says when that leaves an entry without its
restriction.

A quotation may hold blanks too, but options are one word of a line. Of options
of several words only the first word is kept, and `keepsOptions_iff` says that
these are the only ones that suffer.
-/

namespace SshKeys.AuthorizedKeys

/-! ### Options as they are read -/

/-- The options in an option field, cut at the commas outside quotation marks. A quotation mark
right after a backslash neither opens a quotation nor closes one. -/
def optionList (quoted afterBackslash : Bool) : Text → List Text
  | [] => [[]]
  | c :: rest =>
    if c = ',' ∧ quoted = false then [] :: optionList false false rest
    else
      let turns := c == '"' && !afterBackslash
      (optionList (quoted ^^ turns) (c == '\\') rest).modifyHead (c :: ·)

/-- The options of a line, which end at the first space. -/
def lineOptions (line : Text) : List Text :=
  optionList false false (line.takeWhile (· ≠ ' '))

theorem optionList_comma (afterBackslash : Bool) (rest : Text) :
    optionList false afterBackslash (',' :: rest) = [] :: optionList false false rest := by
  rw [optionList, if_pos ⟨rfl, rfl⟩]

theorem optionList_cons {c : Char} (hcomma : c ≠ ',') (hquote : c ≠ '"')
    (quoted afterBackslash : Bool) (rest : Text) :
    optionList quoted afterBackslash (c :: rest) =
      (optionList quoted (c == '\\') rest).modifyHead (c :: ·) := by
  have hturns : (c == '"') = false := beq_eq_false_iff_ne.2 hquote
  rw [optionList, if_neg fun h => hcomma h.1]
  simp only [hturns, Bool.false_and, Bool.xor_false]

/-- Without quotation marks all commas count. -/
theorem optionList_of_not_mem {t : Text} (h : '"' ∉ t) (afterBackslash : Bool) :
    optionList false afterBackslash t = t.splitOn ',' := by
  induction t generalizing afterBackslash with
  | nil => rfl
  | cons c rest ih =>
      have hrest : '"' ∉ rest := fun hmem => h (List.mem_cons_of_mem c hmem)
      rw [List.splitOn_cons_eq_if_modifyHead]
      by_cases hcomma : c = ','
      · rw [if_pos (by simp [hcomma]), hcomma, optionList_comma, ih hrest]
      · have hquote : c ≠ '"' := fun hc => h (hc ▸ List.mem_cons_self)
        rw [if_neg (by simp [hcomma]), optionList_cons hcomma hquote, ih hrest]

/-- Options of a plain first one and others after a comma. -/
theorem optionList_append_cons {first : Text} (hcomma : ',' ∉ first) (hquote : '"' ∉ first)
    (hbackslash : '\\' ∉ first) (rest : Text) :
    optionList false false (first ++ ',' :: rest) = first :: optionList false false rest := by
  induction first with
  | nil => exact optionList_comma false rest
  | cons c first ih =>
      obtain ⟨hcomma, hcommas⟩ := List.ne_and_not_mem_of_not_mem_cons hcomma
      obtain ⟨hquote, hquotes⟩ := List.ne_and_not_mem_of_not_mem_cons hquote
      obtain ⟨hbackslash, hbackslashes⟩ := List.ne_and_not_mem_of_not_mem_cons hbackslash
      rw [List.cons_append, optionList_cons hcomma.symm hquote.symm,
        beq_eq_false_iff_ne.2 hbackslash.symm, ih hcommas hquotes hbackslashes]
      rfl

theorem optionList_default_append (options : Text) :
    optionList false false (defaultOptions ++ ',' :: options) =
      restriction :: "pty".toList :: optionList false false options := by
  have hparts : defaultOptions = restriction ++ ',' :: "pty".toList := by decide
  rw [hparts, List.append_assoc, List.cons_append,
    optionList_append_cons (by decide) (by decide) (by decide),
    optionList_append_cons (by decide) (by decide) (by decide)]

/-! ### The restriction -/

theorem restriction_mem_optionList_default :
    restriction ∈ optionList false false defaultOptions := by
  decide

/-- Options go wrong exactly where the restriction is found between two commas, but not among the
options as they are read. -/
theorem restriction_mem_optionList_iff (options : Text) :
    restriction ∈ optionList false false (restrictedOptions options) ↔
      (restriction ∈ options.splitOn ',' → restriction ∈ optionList false false options) := by
  unfold restrictedOptions
  by_cases h : restriction ∈ options.splitOn ','
  · rw [if_pos (List.contains_iff_mem.2 h)]
    exact ⟨fun hmem _ => hmem, fun hmem => hmem h⟩
  · rw [if_neg (fun hcontains => h (List.contains_iff_mem.1 hcontains)),
      optionList_default_append]
    exact ⟨fun _ hsplit => absurd hsplit h, fun _ => List.mem_cons_self⟩

/-- The options that are given with a key: the first word, unless it belongs to the key. -/
def givenOptions (text : Text) : Option Text :=
  text.words.head?.filter fun w => !typeStart.isPrefixOf w

variable {text keyType data : Text} {before comment : List Text} {entry : ManagedEntry}

theorem givenOptions_eq (h : IsKeyWords text.words before keyType data comment) :
    givenOptions text = before.head? := by
  rw [givenOptions, h.words]
  cases before with
  | nil =>
      show Option.filter _ (some keyType) = none
      rw [Option.filter_some, h.keyType]
      rfl
  | cons first before =>
      show Option.filter _ (some first) = some first
      rw [Option.filter_some, h.before first List.mem_cons_self]
      rfl

theorem not_blank_of_mem_restrictedOptions {options : Text}
    (h : ∀ c ∈ options, Text.isBlank c = false) :
    ∀ c ∈ restrictedOptions options, Text.isBlank c = false := by
  have hdefault : ∀ c ∈ defaultOptions ++ [','], Text.isBlank c = false :=
    (Text.words_eq_singleton_iff.1 (by decide +kernel)).2
  intro c hc
  unfold restrictedOptions at hc
  split at hc
  · exact h c hc
  · rw [← List.singleton_append, ← List.append_assoc] at hc
    exact (List.mem_append.1 hc).elim (hdefault c) (h c)

theorem restrictedOptions_ne_nil {options : Text} (h : options ≠ []) :
    restrictedOptions options ≠ [] := by
  unfold restrictedOptions
  split
  · exact h
  · simp

/-- The options of an entry are one word. -/
theorem not_blank_of_mem_entryOptions (h : IsKeyWords text.words before keyType data comment) :
    ∀ c ∈ entryOptions before, Text.isBlank c = false := by
  cases before with
  | nil => exact (Text.words_eq_singleton_iff.1 (by decide +kernel)).2
  | cons first before =>
      have hfirst : first ∈ text.words := by
        rw [h.words]
        exact List.mem_cons_self
      exact not_blank_of_mem_restrictedOptions (Text.mem_words hfirst).2

theorem lineOptions_entryLine (h : IsKeyWords text.words before keyType data comment) :
    lineOptions (entryLine before keyType data comment) =
      optionList false false (entryOptions before) := by
  have hspace : ' ' ∉ entryOptions before := fun hmem =>
    absurd (not_blank_of_mem_entryOptions h ' ' hmem) (by decide)
  rw [lineOptions, entryLine, Text.takeWhile_join hspace]

/-- An entry is restricted unless its options hold the restriction only inside a quotation, between
two commas. Options without quotation marks are safe. -/
theorem restriction_mem_lineOptions_iff (h : ManagedEntry.ofText text = .ok entry) :
    (restriction ∈ lineOptions entry.line ↔
      ∀ options ∈ givenOptions text, restriction ∈ options.splitOn ',' →
        restriction ∈ optionList false false options) ∧
    ((∀ options ∈ givenOptions text, '"' ∉ options) → restriction ∈ lineOptions entry.line) := by
  obtain ⟨before, keyType, data, comment, key, hwords, -, rfl⟩ := ManagedEntry.ofText_eq_ok_iff.1 h
  have hiff : restriction ∈ lineOptions (entryLine before keyType data comment) ↔
      ∀ options ∈ givenOptions text, restriction ∈ options.splitOn ',' →
        restriction ∈ optionList false false options := by
    rw [lineOptions_entryLine hwords, givenOptions_eq hwords]
    cases before with
    | nil => simpa [entryOptions] using restriction_mem_optionList_default
    | cons first before => simpa [entryOptions] using restriction_mem_optionList_iff first
  refine ⟨hiff, fun hquote => hiff.2 fun options hoptions hmem => ?_⟩
  rwa [optionList_of_not_mem (hquote options hoptions)]

/-- A quoted command with a comma in it, beside an option that is none of the default ones. -/
theorem restriction_mem_lineOptions_command :
    ∃ entry, ManagedEntry.ofText ("no-pty,command=\"echo a,b\" ".toList ++ sampleKey) = .ok entry ∧
      restriction ∈ lineOptions entry.line := by
  obtain ⟨key, hkey⟩ := exists_parse_sampleKey
  have hentry : ManagedEntry.ofText ("no-pty,command=\"echo a,b\" ".toList ++ sampleKey) = .ok _ :=
    ManagedEntry.ofText_eq_ok_iff.2
      ⟨["no-pty,command=\"echo".toList, "a,b\"".toList], sampleType, sampleData, [], key,
        ⟨by decide +kernel, by decide, by decide⟩, hkey, rfl⟩
  refine ⟨_, hentry, (restriction_mem_lineOptions_iff hentry).1.2 ?_⟩
  decide +kernel

/-- A quoted command that has the restriction between two commas passes for a restricted one. -/
theorem exists_restriction_not_mem_lineOptions :
    ∃ entry, ManagedEntry.ofText ("command=\"a,restrict,b\" ".toList ++ sampleKey) = .ok entry ∧
      restriction ∉ lineOptions entry.line := by
  obtain ⟨key, hkey⟩ := exists_parse_sampleKey
  refine ⟨_, ManagedEntry.ofText_eq_ok_iff.2
    ⟨["command=\"a,restrict,b\"".toList], sampleType, sampleData, [], key,
      ⟨by decide +kernel, by decide, by decide⟩, hkey, rfl⟩, ?_⟩
  show restriction ∉ lineOptions
    (entryLine ["command=\"a,restrict,b\"".toList] sampleType sampleData [])
  decide +kernel

/-! ### Options of several words -/

/-- A key with options before it, blanks between, and perhaps a comment behind. The options may
hold blanks too, as long as quotation marks stand around them. -/
structure HasOptions (text options keyType data rest : Text) : Prop where
  text_eq : ∃ gap gap', Text.AllBlank gap ∧ gap ≠ [] ∧ Text.AllBlank gap' ∧ gap' ≠ [] ∧
    text = options ++ gap ++ (keyType ++ gap' ++ (data ++ rest))
  options_ne_nil : options ≠ []
  quoted : ∀ i, (hi : i < options.length) → Text.isBlank options[i] = true →
    '"' ∈ options.take i ∧ '"' ∈ options.drop (i + 1)
  words : ∀ w ∈ options.words, typeStart.isPrefixOf w = false
  keyType : typeStart.isPrefixOf keyType = true ∧ keyType.words = [keyType]
  data : data.words = [data]
  rest : ∀ c ∈ rest.head?, Text.isBlank c = true

/-- A line that begins with all of these options, save that runs of blanks in them may have
changed, and perhaps with the default ones in front. These words follow. -/
def KeepsOptions (options line : Text) (words : List Text) : Prop :=
  ∃ front kept, (front = [] ∨ front = defaultOptions ++ [',']) ∧ kept.words = options.words ∧
    line = Text.join [' '] ((front ++ kept) :: words)

variable {options rest : Text} {key : PublicKey}

namespace HasOptions

variable (h : HasOptions text options keyType data rest)

include h

theorem exists_append_of_blank {c : Char} (hc : c ∈ options) (hblank : Text.isBlank c = true) :
    ∃ before after, options = before ++ c :: after ∧ '"' ∈ before ∧ '"' ∈ after := by
  obtain ⟨i, hi, rfl⟩ := List.mem_iff_getElem.1 hc
  refine ⟨options.take i, options.drop (i + 1), ?_, h.quoted i hi hblank⟩
  rw [← List.drop_eq_getElem_cons hi, List.take_append_drop]

theorem words_ne_nil : options.words ≠ [] := by
  obtain ⟨c, hc⟩ := List.exists_mem_of_ne_nil options h.options_ne_nil
  by_cases hblank : Text.isBlank c = true
  · obtain ⟨before, after, hoptions, hbefore, -⟩ := h.exists_append_of_blank hc hblank
    have hquote : '"' ∈ options := by
      rw [hoptions]
      exact List.mem_append_left _ hbefore
    exact Text.words_ne_nil_of_mem hquote (by decide)
  · exact Text.words_ne_nil_of_mem hc (by simpa using hblank)

theorem isKeyWords : IsKeyWords text.words options.words keyType data rest.words := by
  obtain ⟨gap, gap', hgap, hne, hgap', hne', htext⟩ := h.text_eq
  obtain ⟨hdata, hdataBlank⟩ := Text.words_eq_singleton_iff.1 h.data
  refine ⟨?_, h.words, h.keyType.1⟩
  rw [htext, Text.words_append_append hgap hne, Text.words_append_append hgap' hne', h.keyType.2,
    Text.words_append_of_head? hdata hdataBlank h.rest]
  rfl

/-- A blank has a word on either side of it. -/
theorem forall_not_blank_of_words_eq_singleton {first : Text} (hwords : options.words = [first]) :
    ∀ c ∈ options, Text.isBlank c = false := by
  intro c hc
  by_contra hblank
  have hblank : Text.isBlank c = true := by simpa using hblank
  have hquote : Text.isBlank '"' = false := by decide
  obtain ⟨before, after, hoptions, hbefore, hafter⟩ := h.exists_append_of_blank hc hblank
  rw [hoptions, Text.words_append_cons hblank] at hwords
  have hlength := congrArg List.length hwords
  rw [List.length_append, List.length_singleton] at hlength
  have hleft := List.length_pos_iff.2 (Text.words_ne_nil_of_mem hbefore hquote)
  have hright := List.length_pos_iff.2 (Text.words_ne_nil_of_mem hafter hquote)
  omega

end HasOptions

/-- A line that keeps options has all of their words. -/
theorem KeepsOptions.length_le {line : Text} {words : List Text}
    (h : KeepsOptions options line words) :
    options.words.length + (words.flatMap Text.words).length ≤ line.words.length := by
  obtain ⟨front, kept, -, hkept, rfl⟩ := h
  rw [Text.words_join, List.flatMap_cons, List.length_append, ← hkept]
  exact Nat.add_le_add_right (Text.length_words_le front kept) _

theorem keepsOptions_restrictedOptions (options : Text) (words : List Text) :
    KeepsOptions options (Text.join [' '] (restrictedOptions options :: words)) words := by
  unfold restrictedOptions
  split
  · exact ⟨[], options, .inl rfl, rfl, rfl⟩
  · exact ⟨defaultOptions ++ [','], options, .inr rfl, rfl, by simp⟩

/-- An entry made of a key with options has the first word of these options, so it keeps them only
if they hold no blank. -/
theorem keepsOptions_iff (h : HasOptions text options keyType data rest)
    (hparse : PublicKey.parse (Text.join [' '] [keyType, data]) = .ok key) :
    ∃ entry first more, ManagedEntry.ofText text = .ok entry ∧
      entry.fingerprint = key.fingerprint ∧ options.words = first :: more ∧
      entry.line = Text.join [' ']
        (restrictedOptions first :: keyType :: data :: markedWords rest.words) ∧
      (KeepsOptions options entry.line (keyType :: data :: markedWords rest.words) ↔
        ∀ c ∈ options, Text.isBlank c = false) := by
  have hwords := h.isKeyWords
  obtain ⟨first, more, hfirst⟩ := List.exists_cons_of_ne_nil h.words_ne_nil
  obtain ⟨hne, hblank⟩ := Text.mem_words (hfirst ▸ List.mem_cons_self : first ∈ options.words)
  rw [hfirst] at hwords
  have hentry := ManagedEntry.ofText_eq_ok_iff.2 ⟨_, _, _, _, key, hwords, hparse, rfl⟩
  refine ⟨_, first, more, hentry, rfl, hfirst, rfl, ?_, ?_⟩
  -- before the key the line has one word, which leaves no room for the others
  · intro hkeeps
    have hline : (entryLine (first :: more) keyType data rest.words).words =
        restrictedOptions first ::
          (keyType :: data :: markedWords rest.words).flatMap Text.words := by
      rw [entryLine, Text.words_join, List.flatMap_cons, entryOptions,
        Text.words_of_forall_not_blank (restrictedOptions_ne_nil hne)
          (not_blank_of_mem_restrictedOptions hblank)]
      rfl
    have hlength : _ ≤ (entryLine (first :: more) keyType data rest.words).words.length :=
      hkeeps.length_le
    rw [hline, hfirst, List.length_cons, List.length_cons] at hlength
    have hmore : more = [] := List.length_eq_zero_iff.1 (by omega)
    exact h.forall_not_blank_of_words_eq_singleton (hfirst.trans (by rw [hmore]))
  · intro hoptions
    rw [Text.words_of_forall_not_blank h.options_ne_nil hoptions] at hfirst
    cases hfirst
    exact keepsOptions_restrictedOptions options _

/-- A quoted command of one word, before a key with a comment. -/
theorem keepsOptions_command :
    ∃ entry,
      ManagedEntry.ofText ("command=\"ls\"\t".toList ++ sampleKey ++ " admin".toList) =
        .ok entry ∧
      KeepsOptions "command=\"ls\"".toList entry.line
        [sampleType, sampleData, "admin".toList, marker] := by
  obtain ⟨key, hkey⟩ := exists_parse_sampleKey
  have hoptions : HasOptions ("command=\"ls\"\t".toList ++ sampleKey ++ " admin".toList)
      "command=\"ls\"".toList sampleType sampleData " admin".toList := by
    refine ⟨⟨['\t'], [' '], by decide, by decide, by decide, by decide, rfl⟩, by decide,
      by decide +kernel, by decide +kernel, ⟨by decide, by decide +kernel⟩, by decide +kernel, ?_⟩
    rintro c ⟨⟩
    decide
  obtain ⟨entry, -, -, hentry, -, -, -, hkeeps⟩ := keepsOptions_iff hoptions hkey
  have hblank : ∀ c ∈ "command=\"ls\"".toList, Text.isBlank c = false :=
    (Text.words_eq_singleton_iff.1 (by decide +kernel)).2
  exact ⟨entry, hentry, hkeeps.2 hblank⟩

/-- A quoted command with an argument, which gets lost. -/
theorem exists_not_keepsOptions :
    HasOptions ("command=\"ls -l\" ".toList ++ sampleKey) "command=\"ls -l\"".toList sampleType
        sampleData [] ∧
      (∃ key, PublicKey.parse sampleKey = .ok key) ∧
      ∃ entry, ManagedEntry.ofText ("command=\"ls -l\" ".toList ++ sampleKey) = .ok entry ∧
        ¬KeepsOptions "command=\"ls -l\"".toList entry.line [sampleType, sampleData, marker] := by
  obtain ⟨key, hkey⟩ := exists_parse_sampleKey
  refine ⟨⟨⟨[' '], [' '], by decide, by decide, by decide, by decide, rfl⟩, by decide,
    by decide +kernel, by decide +kernel, ⟨by decide, by decide +kernel⟩, by decide +kernel,
    nofun⟩, ⟨key, hkey⟩, _, ManagedEntry.ofText_eq_ok_iff.2
      ⟨["command=\"ls".toList, "-l\"".toList], sampleType, sampleData, [], key,
        ⟨by decide +kernel, by decide, by decide⟩, hkey, rfl⟩, fun hkeeps => ?_⟩
  let line := entryLine ["command=\"ls".toList, "-l\"".toList] sampleType sampleData []
  have hlength : _ ≤ line.words.length := hkeeps.length_le
  revert hlength
  decide +kernel

end SshKeys.AuthorizedKeys
