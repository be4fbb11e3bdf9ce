import SshKeys.Proofs.PublicKey

/-!
The grammar of public key lines.

`IsLine` says what a line of a key looks like, without a word on how it is
taken apart, and `parse_eq_ok_iff_isLine` says that these are the lines that are
accepted. Many lines are lines of one key: the blanks at the ends and around the
comment are free, and so is the blank after the algorithm. The line that is
written for a key is one of them.
-/

namespace SshKeys.PublicKey

/-- The algorithm is one word, and the key data begins with the string of it. -/
structure Names (algorithm : Text) (data : Bytes) : Prop where
  ne_nil : algorithm ≠ []
  not_blank : ∀ c ∈ algorithm, Text.isBlank c = false
  /-- otherwise a word cannot count its octets -/
  length : algorithm.utf8.length < UInt32.size
  string : Wire.string algorithm.utf8 <+: data

/-- What may follow the key data on a line: nothing, or a blank and the comment with any blanks
around it. -/
inductive IsEnd (comment : Text) : Text → Prop
  | bare (hcomment : comment = []) : IsEnd comment []
  | blank {c : Char} {rest : Text} (hc : Text.isBlank c = true) (hcomment : rest.trim = comment) :
      IsEnd comment (c :: rest)

/-- A line of a key, with any blanks at its ends. -/
structure IsLine (text : Text) (key : PublicKey) : Prop where
  names : Names key.algorithm key.data
  layout : ∃ c rest, Text.isBlank c = true ∧
    text.trim = key.algorithm ++ c :: (Base64.encodeText key.data ++ rest) ∧
    IsEnd key.comment rest

variable {algorithm comment rest text : Text} {data : Bytes} {key : PublicKey}

theorem Names.embedded (h : Names algorithm data) : embeddedAlgorithm data = .ok algorithm := by
  obtain ⟨rest, hrest⟩ := h.string
  exact embeddedAlgorithm_eq_ok_iff.2 ⟨h.length, rest, hrest.symm⟩

theorem names_of_embedded (hne : algorithm ≠ [])
    (hblank : ∀ c ∈ algorithm, Text.isBlank c = false)
    (h : embeddedAlgorithm data = .ok algorithm) : Names algorithm data := by
  obtain ⟨hlength, rest, hrest⟩ := embeddedAlgorithm_eq_ok_iff.1 h
  exact ⟨hne, hblank, hlength, rest, hrest.symm⟩

/-- The second cut is at the end of the key data. -/
theorem isEnd_iff (data : Bytes) :
    IsEnd comment rest ↔
      ∃ afterData, Text.cutAtBlank (Base64.encodeText data ++ rest) =
        (Base64.encodeText data, afterData) ∧ comment = Text.trim (afterData.getD []) := by
  have hencoded : ∀ c ∈ Base64.encodeText data, Text.isBlank c = false :=
    fun _ hc => Base64.not_blank_of_mem_encodeText hc
  constructor
  · intro h
    cases h with
    | bare hcomment =>
        refine ⟨none, ?_, hcomment⟩
        rw [List.append_nil]
        exact Text.cutAtBlank_of_forall_not_blank hencoded
    | blank hc hcomment =>
        exact ⟨_, Text.cutAtBlank_append_cons hencoded hc _, hcomment.symm⟩
  · rintro ⟨afterData, hcut, hcomment⟩
    cases afterData with
    | none =>
        obtain ⟨-, hrest⟩ := Text.cutAtBlank_eq_none_iff.1 hcut
        obtain rfl : rest = [] := by simpa using hrest
        exact .bare hcomment
    | some after =>
        obtain ⟨-, c, hc, hrest⟩ := Text.cutAtBlank_eq_some_iff.1 hcut
        rw [List.append_cancel_left hrest]
        exact .blank hc hcomment.symm

/-- The lines that are accepted are the lines of keys. -/
theorem parse_eq_ok_iff_isLine : parse text = .ok key ↔ IsLine text key := by
  rw [parse_eq_ok_iff]
  constructor
  · rintro ⟨rest, encoded, afterData, hcut, hcut', hdata, hembedded, hcomment⟩
    obtain rfl := Base64.decodeBase64_eq_ok_iff.1 hdata
    obtain ⟨hblank, c, hc, htrim⟩ := Text.cutAtBlank_eq_some_iff.1 hcut
    obtain ⟨after, rfl⟩ : ∃ after, rest = Base64.encodeText key.data ++ after := by
      cases afterData with
      | none => exact ⟨[], by rw [List.append_nil, (Text.cutAtBlank_eq_none_iff.1 hcut').2]⟩
      | some after =>
          obtain ⟨-, c', -, hrest⟩ := Text.cutAtBlank_eq_some_iff.1 hcut'
          exact ⟨_, hrest⟩
    -- a trimmed line does not begin with a blank, so something stands before the first one
    have hne : key.algorithm ≠ [] := by
      intro hnil
      obtain ⟨-, -, -, -, htrimmed, -⟩ := Text.exists_eq_trim text
      rw [htrim, hnil] at htrimmed
      exact absurd hc (by simp [htrimmed.1 c rfl])
    exact ⟨names_of_embedded hne hblank hembedded, c, after, hc, htrim,
      (isEnd_iff key.data).2 ⟨afterData, hcut', hcomment⟩⟩
  · rintro ⟨hnames, c, rest, hc, htrim, hend⟩
    obtain ⟨afterData, hcut, hcomment⟩ := (isEnd_iff key.data).1 hend
    refine ⟨_, _, afterData, ?_, hcut, Base64.decodeBase64_encodeText _, hnames.embedded, hcomment⟩
    rw [htrim, Text.cutAtBlank_append_cons hnames.not_blank hc]

theorem IsLine.trim_comment (h : IsLine text key) : key.comment.trim = key.comment := by
  obtain ⟨-, c, rest, -, -, hend⟩ := h
  cases hend with
  | bare hcomment => rw [hcomment, Text.trim_nil]
  | blank hc hcomment => rw [← hcomment, Text.trim_trim]

theorem Names.parse_line (h : Names algorithm data) (comment : Text) :
    parse (line ⟨algorithm, data, comment⟩) = .ok ⟨algorithm, data, comment.trim⟩ :=
  PublicKey.parse_line ⟨algorithm, data, comment⟩ h.ne_nil h.not_blank h.embedded

/-- The line that is written for a key is one of the lines that are accepted for it, and what was
accepted is written so that it is accepted again. -/
theorem parse_canonical (text : Text) (key : PublicKey) :
    (parse text = .ok key ↔ IsLine text key) ∧
      (parse text = .ok key → parse key.line = .ok key) ∧
      ∀ algorithm data comment, Names algorithm data →
        parse (line ⟨algorithm, data, comment⟩) = .ok ⟨algorithm, data, comment.trim⟩ := by
  refine ⟨parse_eq_ok_iff_isLine, fun h => ?_, fun _ _ comment hnames =>
    hnames.parse_line comment⟩
  have hline := parse_eq_ok_iff_isLine.1 h
  have hparse := hline.names.parse_line key.comment
  rwa [hline.trim_comment] at hparse

/-- Blanks of several kinds, some of them inside the comment, which keeps those. -/
theorem parse_canonical_blanks :
    let text : Text := "\u2003ssh-x\tAAAABXNzaC14 \u00a0my\t key\r\n".toList
    let key : PublicKey := ⟨"ssh-x".toList, Wire.string (Text.utf8 "ssh-x".toList),
      "my\t key".toList⟩
    IsLine text key ∧ parse key.line = .ok key := by
  intro text key
  have hparse : parse text = .ok key := by decide +kernel
  obtain ⟨hiff, hline, -⟩ := parse_canonical text key
  exact ⟨hiff.1 hparse, hline hparse⟩

end SshKeys.PublicKey
