import SshKeys.Armor
import SshKeys.Proofs.Base64
import SshKeys.Proofs.Text

/-!
Which texts are an armor, and that the armor around a container comes off again.

`body_eq_ok_iff` takes the trimmed lines of a text apart at the two markers, so
with the canonical form of base64 it says what is accepted. For the text that was
put together, `lines_unlines` undoes the line ends, `lines_wrap` says which lines
there are, and none of them changes when it is trimmed or is taken for a marker.
How long these lines are is said by induction on the rows.
-/

namespace SshKeys.Armor

/-! ### Lines -/

/-- A line of its own: no newline in it, and no carriage return at its end. -/
def IsLine (line : Text) : Prop :=
  '\n' ∉ line ∧ line.getLast? ≠ some '\r'

theorem isLine_of_forall_not_blank {line : Text} (h : ∀ c ∈ line, Text.isBlank c = false) :
    IsLine line := by
  constructor
  · intro hmem
    exact absurd (h _ hmem) (by decide)
  · intro hlast
    exact absurd (h _ (List.mem_of_getLast? hlast)) (by decide)

theorem splitOn_unlines {ls : List Text} (h : ∀ l ∈ ls, IsLine l) :
    (unlines ls).splitOn '\n' = ls ++ [[]] := by
  induction ls with
  | nil => rfl
  | cons l ls ih =>
      have hl : '\n' ∉ l := (h l (by simp)).1
      have hls : ∀ l ∈ ls, IsLine l := fun l hl => h l (by simp [hl])
      have hcons : unlines (l :: ls) = l ++ '\n' :: unlines ls := by simp [unlines]
      rw [hcons, List.splitOn_append_cons_self_of_not_mem hl, ih hls, List.cons_append]

theorem lines_unlines {ls : List Text} (h : ∀ l ∈ ls, IsLine l) :
    Text.lines (unlines ls) = ls := by
  have hreturn : ∀ l ∈ ls, Text.dropReturn l = l := by
    intro l hl
    rw [Text.dropReturn, if_neg (h l hl).2]
  rw [Text.lines, splitOn_unlines h, List.dropLast_concat, List.getLast?_concat,
    List.map_congr_left hreturn, List.map_id'']
  · exact List.append_nil ls
  · intro l
    rfl

/-! ### The armored text -/

theorem isLine_header : IsLine header := by
  unfold IsLine header
  decide

theorem isLine_footer : IsLine footer := by
  unfold IsLine footer
  decide

theorem isTrimmed_header : Text.IsTrimmed header :=
  Text.isTrimmed_of_ends (a := '-') (b := '-') rfl rfl (by decide) (by decide)

theorem isTrimmed_footer : Text.IsTrimmed footer :=
  Text.isTrimmed_of_ends (a := '-') (b := '-') rfl rfl (by decide) (by decide)

theorem mem_of_mem_rows {t row : Text} (h : row ∈ rows t) {c : Char} (hc : c ∈ row) : c ∈ t := by
  rw [← flatten_rows t]
  exact List.mem_flatten.2 ⟨row, h, hc⟩

theorem not_blank_of_mem_rows {data : Bytes} {row : Text}
    (h : row ∈ rows (Base64.encodeText data)) : ∀ c ∈ row, Text.isBlank c = false :=
  fun _ hc => Base64.not_blank_of_mem_encodeText (mem_of_mem_rows h hc)

/-- No row is taken for the end marker, which begins with a dash. -/
theorem ne_footer_of_mem_rows {data : Bytes} {row : Text}
    (h : row ∈ rows (Base64.encodeText data)) : row ≠ footer := by
  rintro rfl
  have hdash : '-' ∈ footer := by decide
  exact Base64.ne_dash_of_mem_encodeText (mem_of_mem_rows h hdash) rfl

theorem lines_wrap (data : Bytes) :
    (wrap data).lines = header :: rows (Base64.encodeText data) ++ [footer] := by
  apply lines_unlines
  intro l hl
  rcases List.mem_append.1 hl with hl | hl
  · rcases List.mem_cons.1 hl with rfl | hl
    · exact isLine_header
    · exact isLine_of_forall_not_blank (not_blank_of_mem_rows hl)
  · rw [List.mem_singleton.1 hl]
    exact isLine_footer

/-- Trimming changes none of the lines. -/
theorem trim_lines_wrap (data : Bytes) :
    (wrap data).lines.map Text.trim = header :: (rows (Base64.encodeText data) ++ [footer]) := by
  have hrows : ∀ row ∈ rows (Base64.encodeText data), row.trim = row := fun row hrow =>
    Text.trim_of_isTrimmed
      (Text.isTrimmed_of_forall_not_blank (not_blank_of_mem_rows hrow))
  rw [lines_wrap, List.cons_append, List.map_cons, List.map_append, List.map_singleton,
    Text.trim_of_isTrimmed isTrimmed_header, Text.trim_of_isTrimmed isTrimmed_footer,
    List.map_congr_left hrows, List.map_id'']
  intro row
  rfl

/-! ### Any layout -/

variable {text : Text} {data : Bytes}

/-- Empty lines in front are passed over. -/
theorem dropWhile_isEmpty_eq_cons_iff {ls rest : List Text} {first : Text} (h : first ≠ []) :
    ls.dropWhile List.isEmpty = first :: rest ↔
      ∃ blank, ls = blank ++ first :: rest ∧ ∀ line ∈ blank, line = [] := by
  constructor
  · intro hdrop
    refine ⟨ls.takeWhile List.isEmpty, ?_, fun line hline => ?_⟩
    · rw [← hdrop, List.takeWhile_append_dropWhile]
    · simpa using List.all_eq_true.1 List.all_takeWhile line hline
  · rintro ⟨blank, rfl, hblank⟩
    have hempty : ∀ line ∈ blank, line.isEmpty = true := fun line hline => by
      simp [hblank line hline]
    rw [List.dropWhile_append_of_pos hempty, List.dropWhile_cons_of_neg (by simpa using h)]

/-- The rows go up to the first line that is the footer. -/
theorem takeWhile_footer_eq_iff {ls rows : List Text} :
    footer ∈ ls ∧ ls.takeWhile (· ≠ footer) = rows ↔
      ∃ rest, ls = rows ++ footer :: rest ∧ footer ∉ rows := by
  have hfront {front : List Text} (h : footer ∉ front) (rest : List Text) :
      (front ++ footer :: rest).takeWhile (· ≠ footer) = front := by
    have hne : ∀ line ∈ front, decide (line ≠ footer) = true :=
      fun line hline => decide_eq_true fun heq => h (heq ▸ hline)
    rw [List.takeWhile_append_of_pos hne, List.takeWhile_cons_of_neg (by simp), List.append_nil]
  constructor
  · rintro ⟨hmem, rfl⟩
    obtain ⟨front, rest, rfl, hnot⟩ := List.eq_append_cons_of_mem hmem
    exact ⟨rest, by rw [hfront hnot], by rwa [hfront hnot]⟩
  · rintro ⟨rest, rfl, hnot⟩
    exact ⟨by simp, hfront hnot rest⟩

theorem body_eq_ok_iff {rows : List Text} :
    body text = .ok rows ↔
      ∃ blank rest, text.lines.map Text.trim = blank ++ header :: rows ++ footer :: rest ∧
        (∀ line ∈ blank, line = []) ∧ footer ∉ rows := by
  have hheader : header ≠ [] := by decide
  constructor
  · intro h
    unfold body at h
    split at h
    · nomatch h
    rename_i first after hfirst
    split at h
    · nomatch h
    rename_i hmarker
    obtain rfl : first = header := by simpa using hmarker
    split at h
    · rename_i hmem
      obtain ⟨blank, hsplit, hblank⟩ := (dropWhile_isEmpty_eq_cons_iff hheader).1 hfirst
      obtain ⟨rest, rfl, hnot⟩ := takeWhile_footer_eq_iff.1 ⟨hmem, Except.ok.inj h⟩
      exact ⟨blank, rest, by simpa using hsplit, hblank, hnot⟩
    · nomatch h
  · rintro ⟨blank, rest, hsplit, hblank, hnot⟩
    rw [List.append_assoc, List.cons_append] at hsplit
    have hfirst := (dropWhile_isEmpty_eq_cons_iff hheader).2 ⟨blank, hsplit, hblank⟩
    obtain ⟨hmem, htake⟩ := takeWhile_footer_eq_iff.2 ⟨rest, rfl, hnot⟩
    simp only [body, hfirst, ne_eq, not_true_eq_false, if_false, if_pos hmem, htake]

/-- What is found in an armor is what its rows encode, however they are laid out. Blank lines may
come before the header, and what follows the footer does not matter. -/
theorem unwrap_eq_ok_iff :
    unwrap text = .ok data ↔
      ∃ blank rows rest, text.lines.map Text.trim = blank ++ header :: rows ++ footer :: rest ∧
        (∀ line ∈ blank, line = []) ∧ footer ∉ rows ∧
        rows.flatten = Base64.encodeText data := by
  rw [unwrap, bind_eq_ok_iff]
  constructor
  · rintro ⟨rows, hbody, hdecode⟩
    obtain ⟨blank, rest, hlines, hblank, hrows⟩ := body_eq_ok_iff.1 hbody
    exact ⟨blank, rows, rest, hlines, hblank, hrows, Base64.decodeBase64_eq_ok_iff.1 hdecode⟩
  · rintro ⟨blank, rows, rest, hlines, hblank, hrows, hflatten⟩
    exact ⟨rows, body_eq_ok_iff.2 ⟨blank, rest, hlines, hblank, hrows⟩,
      Base64.decodeBase64_eq_ok_iff.2 hflatten⟩

/-! ### The way back -/

theorem body_wrap (data : Bytes) : body (wrap data) = .ok (rows (Base64.encodeText data)) := by
  refine body_eq_ok_iff.2 ⟨[], [], ?_, nofun, fun hmem => ne_footer_of_mem_rows hmem rfl⟩
  rw [trim_lines_wrap]
  rfl

/-- What was put into an armor is what is found in it. -/
theorem unwrap_wrap (data : Bytes) : unwrap (wrap data) = .ok data := by
  rw [unwrap, body_wrap, ok_bind, flatten_rows, Base64.decodeBase64_encodeText]

/-! ### The layout -/

theorem rows_eq_nil_iff {t : Text} : rows t = [] ↔ t = [] := by
  cases t with
  | nil => simp [rows]
  | cons c rest => simp [rows]

/-- A row is only followed by another if it is full. -/
theorem length_eq_of_mem_dropLast_rows {t row : Text} (h : row ∈ (rows t).dropLast) :
    row.length = width := by
  fun_induction rows t with
  | case1 => simp at h
  | case2 c rest ih =>
      by_cases hmore : rows ((c :: rest).drop width) = []
      · simp [hmore] at h
      · rw [List.dropLast_cons_of_ne_nil hmore] at h
        rcases List.mem_cons.1 h with rfl | h
        · have hlong : width < (c :: rest).length := by
            by_contra hshort
            exact hmore (rows_eq_nil_iff.2 (List.drop_of_length_le (Nat.le_of_not_lt hshort)))
          exact List.length_take_of_le (Nat.le_of_lt hlong)
        · exact ih h

theorem encodeText_eq_nil_iff : Base64.encodeText data = [] ↔ data = [] := by
  constructor
  · intro h
    by_contra hne
    exact Base64.encodeText_ne_nil hne h
  · rintro rfl
    rfl

/-- An armor has the base64 of its container between the marker lines, in lines of seventy
characters of which only the last may be shorter, and no line is empty. The container is found in it
again. -/
theorem wrap_layout (data : Bytes) :
    unwrap (wrap data) = .ok data ∧
      ∃ body : List Text,
        wrap data = header ++ ['\n'] ++ body.flatMap (· ++ ['\n']) ++ footer ++ ['\n'] ∧
        body.flatten = Base64.encodeText data ∧
        (∀ row ∈ body, '\n' ∉ row ∧ 1 ≤ row.length ∧ row.length ≤ 70) ∧
        (∀ row ∈ body.dropLast, row.length = 70) ∧
        (body = [] ↔ data = []) := by
  refine ⟨unwrap_wrap data, rows (Base64.encodeText data), ?_, flatten_rows _, fun row hrow => ?_,
    fun row => length_eq_of_mem_dropLast_rows, rows_eq_nil_iff.trans encodeText_eq_nil_iff⟩
  · simp [wrap, unlines]
  · have hline := isLine_of_forall_not_blank (not_blank_of_mem_rows hrow)
    exact ⟨hline.1, length_le_of_mem_rows hrow⟩

end SshKeys.Armor
