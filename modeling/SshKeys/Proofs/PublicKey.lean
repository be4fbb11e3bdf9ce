import SshKeys.Proofs.Base64
import SshKeys.Proofs.Except
import SshKeys.Proofs.Text.Pieces
import SshKeys.Proofs.Wire.Reading
import SshKeys.PublicKey

/-!
Public key lines are parsed as they were written, up to the blanks around the
comment.

A comment may be anything, so it can also be nothing but blanks. Then the line
ends with blanks that the parser takes off first, and it finds no comment.
-/

namespace SshKeys.PublicKey

theorem embeddedAlgorithm_eq_ok_iff {data : Bytes} {name : Text} :
    embeddedAlgorithm data = .ok name ↔
      name.utf8.length < UInt32.size ∧ ∃ rest, data = Wire.string name.utf8 ++ rest := by
  rw [embeddedAlgorithm, mapError_eq_ok_iff, Wire.run_fst_eq_ok_iff]
  simp only [Wire.returns_text]
  constructor
  · rintro ⟨r, hlength, hconsumes⟩
    exact ⟨hlength, r.remaining, hconsumes.remaining⟩
  · rintro ⟨hlength, rest, rfl⟩
    exact ⟨_, hlength, Wire.Reader.start_consumes _ rest⟩

/-- The parts that a line is cut into, and what must hold of them. -/
theorem parse_eq_ok_iff {text : Text} {key : PublicKey} :
    parse text = .ok key ↔
      ∃ rest encoded afterData,
        text.trim.cutAtBlank = (key.algorithm, some rest) ∧
        Text.cutAtBlank rest = (encoded, afterData) ∧
        decodeBase64 encoded = .ok key.data ∧
        embeddedAlgorithm key.data = .ok key.algorithm ∧
        key.comment = Text.trim (afterData.getD []) := by
  unfold parse
  -- an empty text and a text without a blank have no parts to be cut into
  rcases hempty : text.trim with _ | ⟨c, cs⟩
  · constructor
    · intro h
      nomatch h
    · rintro ⟨rest, encoded, afterData, hcut, -⟩
      rw [Text.cutAtBlank_of_forall_not_blank (by simp)] at hcut
      simp at hcut
  simp only [reduceCtorEq, if_false]
  rcases hcut : Text.cutAtBlank (c :: cs) with ⟨algorithm, _ | rest⟩
  · constructor
    · intro h
      nomatch h
    · rintro ⟨rest, encoded, afterData, hcut', -⟩
      nomatch hcut'
  rcases hcut' : Text.cutAtBlank rest with ⟨encoded, afterData⟩
  simp only [hcut', bind_eq_ok_iff, throw_if_eq_ok_iff]
  constructor
  · rintro ⟨data, hdata, embedded, hembedded, hname, hkey⟩
    obtain rfl := Decidable.not_not.1 hname
    cases hkey
    exact ⟨rest, encoded, afterData, rfl, hcut', hdata, hembedded, rfl⟩
  · rintro ⟨rest', encoded', afterData', hparts, hparts', hdata, hembedded, hcomment⟩
    cases hparts
    cases hcut'.symm.trans hparts'
    refine ⟨key.data, hdata, key.algorithm, hembedded, by simp, ?_⟩
    rw [← hcomment]
    rfl

/-- Two words are a key if the second is key data that names the first. -/
theorem parse_join_eq_ok_iff {w w' : Text} {key : PublicKey} (hw : Text.IsWord w)
    (hw' : Text.IsWord w') :
    parse (Text.join [' '] [w, w']) = .ok key ↔
      ∃ data, w' = Base64.encodeText data ∧ embeddedAlgorithm data = .ok w ∧
        key = ⟨w, data, []⟩ := by
  have hspace : Text.isBlank ' ' = true := by decide
  have htrim : Text.trim (w ++ ' ' :: w') = w ++ ' ' :: w' := by
    apply Text.trim_of_isTrimmed
    simpa using hw.isTrimmed.append hw.ne_nil hw'.isTrimmed hw'.ne_nil [' ']
  rw [Text.join_pair, parse_eq_ok_iff, htrim, Text.cutAtBlank_append_cons hw.not_blank hspace]
  constructor
  · rintro ⟨rest, encoded, afterData, hcut, hcut', hdata, hembedded, hcomment⟩
    obtain ⟨algorithm, data, comment⟩ := key
    cases hcut
    rw [Text.cutAtBlank_of_forall_not_blank hw'.not_blank] at hcut'
    cases hcut'
    cases hcomment
    exact ⟨data, Base64.decodeBase64_eq_ok_iff.1 hdata, hembedded, rfl⟩
  · rintro ⟨data, rfl, hembedded, rfl⟩
    exact ⟨_, _, none, rfl, Text.cutAtBlank_of_forall_not_blank hw'.not_blank,
      Base64.decodeBase64_encodeText data, hembedded, rfl⟩

/-! ### Lines that were written -/

theorem ne_nil_of_embeddedAlgorithm {data : Bytes} {name : Text}
    (h : embeddedAlgorithm data = .ok name) : data ≠ [] := by
  obtain ⟨-, rest, rfl⟩ := embeddedAlgorithm_eq_ok_iff.1 h
  intro hnil
  have hlength := congrArg List.length hnil
  rw [List.length_append, Wire.length_string, List.length_nil] at hlength
  omega

/-- The algorithm and the key data, without a comment. -/
theorem isTrimmed_withData {algorithm : Text} (hne : algorithm ≠ [])
    (hblank : ∀ c ∈ algorithm, Text.isBlank c = false) {data : Bytes} (hdata : data ≠ []) :
    Text.IsTrimmed (algorithm ++ ' ' :: Base64.encodeText data) := by
  have hencoded : Text.IsTrimmed (Base64.encodeText data) :=
    Text.isTrimmed_of_forall_not_blank fun _ hc => Base64.not_blank_of_mem_encodeText hc
  have := (Text.isTrimmed_of_forall_not_blank hblank).append hne hencoded
    (Base64.encodeText_ne_nil hdata) [' ']
  simpa using this

/-- What trimming leaves of a line. -/
theorem exists_trim_line_eq {key : PublicKey}
    (h : Text.IsTrimmed (key.algorithm ++ ' ' :: Base64.encodeText key.data)) :
    ∃ rest, key.line.trim = key.algorithm ++ ' ' :: (Base64.encodeText key.data ++ rest) ∧
      (rest = [] ∧ key.comment.trim = [] ∨
        ∃ middle : Text, rest = ' ' :: middle ∧ middle.trim = key.comment.trim) := by
  let withData := key.algorithm ++ ' ' :: Base64.encodeText key.data
  have hspace : Text.isBlank ' ' = true := by decide
  by_cases htrim : key.comment.trim = []
  -- only blanks follow the key data, if anything
  · have hblank := Text.allBlank_of_trim_eq_nil htrim
    obtain ⟨blanks, hblanks, hline⟩ : ∃ blanks, Text.AllBlank blanks ∧
        key.line = [] ++ withData ++ blanks := by
      by_cases hempty : key.comment = []
      · exact ⟨[], Text.allBlank_nil, by simp [line, hempty, withData]⟩
      · refine ⟨' ' :: key.comment, ?_, by simp [line, hempty, withData]⟩
        exact List.forall_mem_cons.2 ⟨hspace, hblank⟩
    refine ⟨[], ?_, .inl ⟨rfl, htrim⟩⟩
    rw [hline, Text.trim_append_append Text.allBlank_nil h hblanks, List.append_nil]
  -- the line ends where the trimmed comment ends, and keeps the blanks before it
  · obtain ⟨l, r, hl, hr, hm, hcomment⟩ := Text.exists_eq_trim key.comment
    have hempty : key.comment ≠ [] := by
      intro hempty
      rw [hempty] at htrim
      exact htrim rfl
    have hline : key.line = [] ++ (withData ++ (' ' :: l) ++ key.comment.trim) ++ r := by
      rw [line, if_neg hempty]
      conv_lhs => rw [hcomment]
      simp [withData]
    have hmiddle : Text.IsTrimmed (withData ++ (' ' :: l) ++ key.comment.trim) :=
      h.append (by simp) hm htrim _
    refine ⟨' ' :: (l ++ key.comment.trim), ?_, .inr ⟨_, rfl, ?_⟩⟩
    · rw [hline, Text.trim_append_append Text.allBlank_nil hmiddle hr]
      simp [withData]
    · simpa using Text.trim_append_append hl hm Text.allBlank_nil

/-- A line says what its key is, save for the blanks around the comment. -/
theorem parse_line (key : PublicKey) (hne : key.algorithm ≠ [])
    (hblank : ∀ c ∈ key.algorithm, Text.isBlank c = false)
    (hembedded : embeddedAlgorithm key.data = .ok key.algorithm) :
    parse key.line = .ok { key with comment := key.comment.trim } := by
  have hspace : Text.isBlank ' ' = true := by decide
  have hencoded : ∀ c ∈ Base64.encodeText key.data, Text.isBlank c = false :=
    fun _ hc => Base64.not_blank_of_mem_encodeText hc
  obtain ⟨rest, htrim, hrest⟩ := exists_trim_line_eq
    (isTrimmed_withData hne hblank (ne_nil_of_embeddedAlgorithm hembedded))
  rw [parse_eq_ok_iff, htrim, Text.cutAtBlank_append_cons hblank hspace]
  rcases hrest with ⟨rfl, hcomment⟩ | ⟨middle, rfl, hcomment⟩
  · refine ⟨_, Base64.encodeText key.data, none, rfl, ?_, Base64.decodeBase64_encodeText _,
      hembedded, hcomment⟩
    rw [List.append_nil]
    exact Text.cutAtBlank_of_forall_not_blank hencoded
  · exact ⟨_, Base64.encodeText key.data, some middle, rfl,
      Text.cutAtBlank_append_cons hencoded hspace middle, Base64.decodeBase64_encodeText _,
      hembedded, hcomment.symm⟩

end SshKeys.PublicKey
