import SshKeys.Proofs.Text

/-!
The words and the lines of a text.

Words are cut at blanks and lines at newlines, so a text is taken apart at the
character where it is put together: `words_append_cons` and `lines_append_newline`
are the equations that all else follows from.
-/

namespace SshKeys.Text

/-! ### Pieces -/

/-- No piece has a character that the text was cut at. -/
theorem eq_false_of_mem_splitOnP {p : Char → Bool} {t piece : Text} (h : piece ∈ t.splitOnP p) :
    ∀ c ∈ piece, p c = false := by
  induction t generalizing piece with
  | nil =>
      rw [List.splitOnP_nil, List.mem_singleton] at h
      simp [h]
  | cons d t ih =>
      rw [List.splitOnP_cons_eq_if_modifyHead] at h
      split at h
      · rcases List.mem_cons.1 h with rfl | h
        · simp
        · exact ih h
      · rename_i hd
        obtain ⟨first, rest, hsplit⟩ := List.exists_cons_of_ne_nil (List.splitOnP_ne_nil p t)
        rw [hsplit, List.modifyHead_cons] at h
        rcases List.mem_cons.1 h with rfl | h
        · have hfirst := ih (hsplit ▸ List.mem_cons_self)
          exact List.forall_mem_cons.2 ⟨by simpa using hd, hfirst⟩
        · exact ih (hsplit ▸ List.mem_cons_of_mem _ h)

theorem not_mem_of_mem_splitOn {c : Char} {t piece : Text} (h : piece ∈ t.splitOn c) :
    c ∉ piece := by
  intro hc
  rw [List.splitOn_eq_splitOnP] at h
  simpa using eq_false_of_mem_splitOnP h c hc

/-! ### Words -/

@[simp] theorem words_nil : words [] = [] := rfl

/-- A blank stands between words. -/
theorem words_append_cons {c : Char} (hc : isBlank c = true) (s t : Text) :
    words (s ++ c :: t) = words s ++ words t := by
  rw [words, List.splitOnP_append_cons s t hc, List.filter_append]
  rfl

theorem words_cons {c : Char} (hc : isBlank c = true) (t : Text) : words (c :: t) = words t :=
  words_append_cons hc [] t

theorem words_append_of_allBlank {blanks : Text} (h : AllBlank blanks) (t : Text) :
    words (blanks ++ t) = words t := by
  induction blanks with
  | nil => rfl
  | cons c blanks ih =>
      obtain ⟨hc, hblanks⟩ := List.forall_mem_cons.1 h
      rw [List.cons_append, words_cons hc, ih hblanks]

theorem words_append_append {blanks : Text} (h : AllBlank blanks) (hne : blanks ≠ [])
    (s t : Text) : words (s ++ blanks ++ t) = words s ++ words t := by
  obtain ⟨c, more, rfl⟩ := List.exists_cons_of_ne_nil hne
  obtain ⟨hc, hmore⟩ := List.forall_mem_cons.1 h
  rw [List.append_assoc, List.cons_append, words_append_cons hc, words_append_of_allBlank hmore]

theorem words_of_forall_not_blank {w : Text} (hne : w ≠ []) (h : ∀ c ∈ w, isBlank c = false) :
    words w = [w] := by
  rw [words, List.splitOnP_eq_singleton h]
  simp [hne]

/-- What follows a word is more of it, unless it begins with a blank. -/
theorem words_append_of_head? {w rest : Text} (hne : w ≠ []) (h : ∀ c ∈ w, isBlank c = false)
    (hrest : ∀ c ∈ rest.head?, isBlank c = true) : words (w ++ rest) = w :: words rest := by
  cases rest with
  | nil => rw [List.append_nil, words_of_forall_not_blank hne h, words_nil]
  | cons c rest =>
      have hc : isBlank c = true := hrest c rfl
      rw [words_append_cons hc, words_of_forall_not_blank hne h, words_cons hc]
      rfl

theorem mem_words {t w : Text} (h : w ∈ words t) : w ≠ [] ∧ ∀ c ∈ w, isBlank c = false := by
  obtain ⟨hmem, hne⟩ := List.mem_filter.1 h
  exact ⟨by simpa using hne, eq_false_of_mem_splitOnP hmem⟩

theorem isWord_of_mem_words {t w : Text} (h : w ∈ words t) : IsWord w :=
  ⟨(mem_words h).1, (mem_words h).2⟩

theorem words_eq_singleton_iff {w : Text} : words w = [w] ↔ IsWord w :=
  ⟨fun h => isWord_of_mem_words (h ▸ List.mem_singleton_self w : w ∈ words w),
    fun h => words_of_forall_not_blank h.ne_nil h.not_blank⟩

theorem words_append_of_allBlank_right {blanks : Text} (h : AllBlank blanks) (t : Text) :
    words (t ++ blanks) = words t := by
  cases blanks with
  | nil => rw [List.append_nil]
  | cons c blanks =>
      have hwords := words_append_append h (by simp) t []
      rwa [List.append_nil, words_nil, List.append_nil] at hwords

@[simp] theorem words_trim (t : Text) : words t.trim = words t := by
  obtain ⟨l, r, hl, hr, -, ht⟩ := exists_eq_trim t
  conv_rhs => rw [ht]
  rw [words_append_of_allBlank_right hr, words_append_of_allBlank hl]

/-- What a text begins with, up to its first blank. -/
theorem exists_append_of_head? (t : Text) :
    ∃ w rest, t = w ++ rest ∧ (∀ c ∈ w, isBlank c = false) ∧
      ∀ c ∈ rest.head?, isBlank c = true := by
  let isInWord : Char → Bool := fun c => !isBlank c
  refine ⟨t.takeWhile isInWord, t.dropWhile isInWord, List.takeWhile_append_dropWhile.symm,
    fun c hc => ?_, fun c hc => ?_⟩
  · simpa [isInWord] using List.all_eq_true.1 List.all_takeWhile c hc
  · have := List.head?_dropWhile_not isInWord t
    rw [Option.mem_def.1 hc] at this
    simpa [isInWord] using this

/-- A text is cut at its first blank. -/
theorem cutAtBlank_eq_some_iff {t s rest : Text} :
    cutAtBlank t = (s, some rest) ↔
      (∀ c ∈ s, isBlank c = false) ∧ ∃ c, isBlank c = true ∧ t = s ++ c :: rest := by
  constructor
  · intro h
    obtain ⟨w, after, rfl, hw, hafter⟩ := exists_append_of_head? t
    cases after with
    | nil =>
        rw [List.append_nil, cutAtBlank_of_forall_not_blank hw] at h
        nomatch h
    | cons c after =>
        have hc : isBlank c = true := hafter c rfl
        rw [cutAtBlank_append_cons hw hc] at h
        cases h
        exact ⟨hw, c, hc, rfl⟩
  · rintro ⟨hs, c, hc, rfl⟩
    exact cutAtBlank_append_cons hs hc rest

theorem cutAtBlank_eq_none_iff {t s : Text} :
    cutAtBlank t = (s, none) ↔ (∀ c ∈ s, isBlank c = false) ∧ t = s := by
  constructor
  · intro h
    obtain ⟨w, after, rfl, hw, hafter⟩ := exists_append_of_head? t
    cases after with
    | nil =>
        rw [List.append_nil, cutAtBlank_of_forall_not_blank hw] at h
        cases h
        exact ⟨hw, List.append_nil _⟩
    | cons c after =>
        rw [cutAtBlank_append_cons hw (hafter c rfl)] at h
        nomatch h
  · rintro ⟨hs, rfl⟩
    exact cutAtBlank_of_forall_not_blank hs

/-- Only blanks make no words. -/
theorem words_ne_nil_of_mem {t : Text} {c : Char} (hmem : c ∈ t) (hc : isBlank c = false) :
    words t ≠ [] := by
  induction t with
  | nil => nomatch hmem
  | cons d t ih =>
      by_cases hd : isBlank d = true
      · rw [words_cons hd]
        rcases List.mem_cons.1 hmem with rfl | hmem
        · exact absurd hd (by simp [hc])
        · exact ih hmem
      · obtain ⟨w, rest, rfl, hw, hrest⟩ := exists_append_of_head? t
        have hword : ∀ c ∈ d :: w, isBlank c = false :=
          List.forall_mem_cons.2 ⟨by simpa using hd, hw⟩
        rw [← List.cons_append, words_append_of_head? (List.cons_ne_nil d w) hword hrest]
        exact List.cons_ne_nil _ _

/-- A text in front may grow into the first word, but takes no word away. -/
theorem length_words_le (s t : Text) : (words t).length ≤ (words (s ++ t)).length := by
  obtain ⟨w, rest, rfl, hw, hrest⟩ := exists_append_of_head? t
  by_cases hne : w = []
  · subst hne
    rw [List.nil_append]
    cases rest with
    | nil => simp
    | cons c rest =>
        have hc : isBlank c = true := hrest c rfl
        rw [words_append_cons hc, words_cons hc, List.length_append]
        exact Nat.le_add_left _ _
  · obtain ⟨d, more, rfl⟩ := List.exists_cons_of_ne_nil hne
    have hfirst : words (s ++ d :: more) ≠ [] :=
      words_ne_nil_of_mem (List.mem_append_right s List.mem_cons_self) (hw d List.mem_cons_self)
    have hlength : 0 < (words (s ++ d :: more)).length := List.length_pos_iff.2 hfirst
    rw [words_append_of_head? hne hw hrest, ← List.append_assoc, List.length_cons]
    cases rest with
    | nil =>
        rw [List.append_nil, words_nil]
        exact hlength
    | cons c rest =>
        have hc : isBlank c = true := hrest c rfl
        rw [words_append_cons hc, words_cons hc, List.length_append]
        omega

/-! ### Trimming once more -/

theorem trim_append_of_allBlank {blanks : Text} (h : AllBlank blanks) (t : Text) :
    trim (t ++ blanks) = trim t := by
  obtain ⟨l, r, hl, hr, htrim, ht⟩ := exists_eq_trim t
  have hblanks : AllBlank (r ++ blanks) :=
    fun c hc => (List.mem_append.1 hc).elim (hr c) (h c)
  conv_lhs => rw [ht, List.append_assoc]
  exact trim_append_append hl htrim hblanks

@[simp] theorem trim_trim (t : Text) : trim (trim t) = trim t := by
  obtain ⟨-, -, -, -, htrim, -⟩ := exists_eq_trim t
  exact trim_of_isTrimmed htrim

/-- A carriage return at the end of a line is a blank. -/
theorem trim_dropReturn (line : Text) : trim (dropReturn line) = trim line := by
  unfold dropReturn
  split
  · rename_i h
    obtain ⟨front, rfl⟩ := List.getLast?_eq_some_iff.1 h
    have hreturn : AllBlank ['\r'] := by decide
    rw [List.dropLast_concat, trim_append_of_allBlank hreturn]
  · rfl

/-! ### Joined words -/

theorem join_cons_cons (separator w w' : Text) (ws : List Text) :
    join separator (w :: w' :: ws) = w ++ separator ++ join separator (w' :: ws) := by
  rw [join, List.intercalate_cons_cons]
  rfl

theorem join_pair (w w' : Text) : join [' '] [w, w'] = w ++ ' ' :: w' := by
  simp [join]

/-- The first of the words is what stands before the first space. -/
theorem takeWhile_join {w : Text} (h : ' ' ∉ w) (w' : Text) (ws : List Text) :
    (join [' '] (w :: w' :: ws)).takeWhile (· ≠ ' ') = w := by
  have hw : ∀ c ∈ w, decide (c ≠ ' ') = true := by
    intro c hc
    exact decide_eq_true fun hspace => h (hspace ▸ hc)
  rw [join_cons_cons, List.append_assoc, List.takeWhile_append_of_pos hw, List.singleton_append,
    List.takeWhile_cons_of_neg (by simp), List.append_nil]

theorem words_join (ws : List Text) : words (join [' '] ws) = ws.flatMap words := by
  induction ws with
  | nil => rfl
  | cons w ws ih =>
      cases ws with
      | nil => simp [join]
      | cons w' ws =>
          have hspace : isBlank ' ' = true := by decide
          rw [join_cons_cons, List.append_assoc, List.singleton_append,
            words_append_cons hspace, ih]
          rfl

theorem infix_join_of_mem {w : Text} {ws : List Text} (h : w ∈ ws) : w <:+: join [' '] ws := by
  induction ws with
  | nil => nomatch h
  | cons w' ws ih =>
      cases ws with
      | nil =>
          obtain rfl := List.mem_singleton.1 h
          simp [join]
      | cons w'' ws =>
          rw [join_cons_cons]
          rcases List.mem_cons.1 h with rfl | h
          · rw [List.append_assoc]
            exact (List.prefix_append _ _).isInfix
          · exact (ih h).trans (List.suffix_append _ _).isInfix

/-- Joined words begin and end like words. -/
theorem isTrimmed_join {ws : List Text} (hne : ws ≠ []) (h : ∀ w ∈ ws, IsWord w) :
    join [' '] ws ≠ [] ∧ IsTrimmed (join [' '] ws) := by
  induction ws with
  | nil => exact absurd rfl hne
  | cons w ws ih =>
      have hw := h w List.mem_cons_self
      cases ws with
      | nil =>
          have hjoin : join [' '] [w] = w := by simp [join]
          rw [hjoin]
          exact ⟨hw.ne_nil, hw.isTrimmed⟩
      | cons w' ws =>
          obtain ⟨hrest, htrim⟩ := ih (List.cons_ne_nil _ _) fun v hv =>
            h v (List.mem_cons_of_mem _ hv)
          rw [join_cons_cons]
          exact ⟨by simp, hw.isTrimmed.append hw.ne_nil htrim hrest [' ']⟩

/-- A blank is none of the characters of joined words, unless it is the space between them. -/
theorem not_mem_join {c : Char} (hc : c ≠ ' ') {ws : List Text} (h : ∀ w ∈ ws, c ∉ w) :
    c ∉ join [' '] ws := by
  induction ws with
  | nil => simp [join]
  | cons w ws ih =>
      cases ws with
      | nil => simpa [join] using h
      | cons w' ws =>
          have hw := h w List.mem_cons_self
          have hrest := ih fun v hv => h v (List.mem_cons_of_mem _ hv)
          rw [join_cons_cons]
          simp [hw, hrest, hc]

/-! ### Lines -/

theorem lines_append_newline (t : Text) :
    lines (t ++ ['\n']) = (t.splitOn '\n').map dropReturn := by
  rw [lines, List.splitOn_append_cons_self, List.splitOn_nil, List.dropLast_concat,
    List.getLast?_concat]
  exact List.append_nil _

/-- The first line goes up to the first newline, if there is one. -/
theorem exists_splitOn_newline_eq (t : Text) :
    ∃ first rest, t.splitOn '\n' = first :: rest ∧ '\n' ∉ first ∧
      (t = first ∨ ∃ after, t = first ++ '\n' :: after) := by
  by_cases h : '\n' ∈ t
  · obtain ⟨first, after, rfl, hfirst⟩ := List.eq_append_cons_of_mem h
    exact ⟨first, _, List.splitOn_append_cons_self_of_not_mem hfirst after, hfirst,
      .inr ⟨after, rfl⟩⟩
  · exact ⟨t, [], List.splitOn_eq_singleton h, h, .inl rfl⟩

end SshKeys.Text
