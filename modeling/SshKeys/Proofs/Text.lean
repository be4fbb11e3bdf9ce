import Mathlib.Data.List.Basic
import Mathlib.Data.List.TakeDrop
import SshKeys.Text.Basic

/-!
What trimming and cutting leave of a text.

A text is trimmed by taking it apart: blanks, a middle that has no blank at
either end, blanks. `exists_eq_trim` gives such parts for any text and
`trim_append_append` says that they determine the result, so that no later
proof unfolds the two passes of `trim`.
-/

namespace SshKeys.Text

/-! ### UTF-8 -/

theorem utf8_inj {s t : Text} : utf8 s = utf8 t ↔ s = t := by
  constructor
  · intro h
    have hs := ofUtf8?_utf8 s
    rw [h, ofUtf8?_utf8] at hs
    exact (Option.some.inj hs).symm
  · rintro rfl
    rfl

theorem getLast?_utf8EncodeChar (c : Char) :
    (String.utf8EncodeChar c).getLast? =
      some (UInt8.ofNat (if c.toNat ≤ 127 then c.toNat else c.toNat % 64 + 128)) := by
  show (String.utf8EncodeChar c).getLast? =
    some (UInt8.ofNat (if c.val.toNat ≤ 127 then c.val.toNat else c.val.toNat % 64 + 128))
  simp only [String.utf8EncodeChar]
  split
  · rfl
  split
  · rfl
  split <;> rfl

/-- A text ends with a newline if its octets do. -/
theorem getLast?_utf8_eq_iff {t : Text} : t.utf8.getLast? = some 10 ↔ t.getLast? = some '\n' := by
  rcases List.eq_nil_or_concat t with rfl | ⟨front, c, rfl⟩
  · simp
  have hchar : utf8 [c] = String.utf8EncodeChar c := List.flatMap_singleton ..
  rw [List.concat_eq_append, utf8_append, List.getLast?_concat, hchar,
    List.getLast?_append_of_ne_nil _ String.utf8EncodeChar_ne_nil, getLast?_utf8EncodeChar,
    Option.some_inj, Option.some_inj]
  constructor
  · intro h
    have hnat := congrArg UInt8.toNat h
    rw [UInt8.toNat_ofNat', show (10 : UInt8).toNat = 10 from rfl] at hnat
    refine Char.toNat_inj.1 ?_
    show c.toNat = 10
    split at hnat <;> omega
  · rintro rfl
    rfl

/-! ### Trimming -/

/-- Nothing but blanks. -/
def AllBlank (t : Text) : Prop :=
  ∀ c ∈ t, isBlank c = true

instance (t : Text) : Decidable (AllBlank t) :=
  decidable_of_iff (t.all isBlank = true) List.all_eq_true

/-- No blank at either end. -/
def IsTrimmed (t : Text) : Prop :=
  (∀ c ∈ t.head?, isBlank c = false) ∧ ∀ c ∈ t.getLast?, isBlank c = false

theorem allBlank_nil : AllBlank [] := by
  simp [AllBlank]

theorem isTrimmed_of_forall_not_blank {t : Text} (h : ∀ c ∈ t, isBlank c = false) :
    IsTrimmed t :=
  ⟨fun c hc => h c (List.mem_of_mem_head? hc), fun c hc => h c (List.mem_of_mem_getLast? hc)⟩

theorem isTrimmed_of_ends {t : Text} {a b : Char} (ha : t.head? = some a)
    (hb : t.getLast? = some b) (ha' : isBlank a = false) (hb' : isBlank b = false) :
    IsTrimmed t := by
  constructor
  · intro c hc
    rwa [← Option.some.inj (ha.symm.trans hc)]
  · intro c hc
    rwa [← Option.some.inj (hb.symm.trans hc)]

theorem IsTrimmed.reverse {t : Text} (h : IsTrimmed t) : IsTrimmed t.reverse := by
  rw [IsTrimmed, List.head?_reverse, List.getLast?_reverse]
  exact ⟨h.2, h.1⟩

/-- Whatever stands between two ends that are not blank. -/
theorem IsTrimmed.append {s t : Text} (hs : IsTrimmed s) (hs' : s ≠ []) (ht : IsTrimmed t)
    (ht' : t ≠ []) (middle : Text) : IsTrimmed (s ++ middle ++ t) := by
  constructor
  · intro c hc
    rw [List.append_assoc, List.head?_append_of_ne_nil s hs'] at hc
    exact hs.1 c hc
  · intro c hc
    rw [List.getLast?_append_of_ne_nil _ ht'] at hc
    exact ht.2 c hc

theorem dropWhile_isBlank_append {l m : Text} (hl : AllBlank l) (hm : IsTrimmed m) (r : Text)
    (hne : m ≠ []) : (l ++ m ++ r).dropWhile isBlank = m ++ r := by
  obtain ⟨c, rest, rfl⟩ := List.exists_cons_of_ne_nil hne
  have hc : isBlank c = false := hm.1 c rfl
  rw [List.append_assoc, List.dropWhile_append_of_pos hl, List.cons_append,
    List.dropWhile_cons_of_neg (by simp [hc])]

/-- Blanks before and behind a trimmed middle go. -/
theorem trim_append_append {l m r : Text} (hl : AllBlank l) (hm : IsTrimmed m)
    (hr : AllBlank r) : trim (l ++ m ++ r) = m := by
  have hr' : AllBlank r.reverse := fun c hc => hr c (List.mem_reverse.1 hc)
  by_cases hne : m = []
  · subst hne
    have hall : ∀ c ∈ l ++ [] ++ r, isBlank c = true := by
      intro c hc
      rcases List.mem_append.1 hc with hc | hc
      · exact hl c (by simpa using hc)
      · exact hr c hc
    have hdrop : (l ++ [] ++ r ++ []).dropWhile isBlank = [] := List.dropWhile_append_of_pos hall
    rw [List.append_nil] at hdrop
    rw [trim, trimLeft, hdrop]
    rfl
  · have hleft : trimLeft (l ++ m ++ r) = m ++ r := dropWhile_isBlank_append hl hm r hne
    have hright := dropWhile_isBlank_append hr' hm.reverse [] (by simpa using hne)
    rw [List.append_nil, ← List.reverse_append, List.append_nil] at hright
    rw [trim, hleft, trimRight, hright, List.reverse_reverse]

theorem trim_of_isTrimmed {t : Text} (h : IsTrimmed t) : trim t = t := by
  simpa using trim_append_append allBlank_nil h allBlank_nil

theorem trimRight_of_isTrimmed {t : Text} (h : IsTrimmed t) : trimRight t = t := by
  rcases List.eq_nil_or_concat t with rfl | ⟨front, c, rfl⟩
  · rfl
  · have hc : isBlank c = false := h.2 c (by simp)
    rw [trimRight, List.concat_eq_append, List.reverse_concat,
      List.dropWhile_cons_of_neg (by simp [hc]), List.reverse_cons, List.reverse_reverse]

theorem takeWhile_isBlank (t : Text) : AllBlank (t.takeWhile isBlank) := by
  exact List.all_eq_true.1 List.all_takeWhile

theorem head?_dropWhile_isBlank {t : Text} {c : Char} (h : c ∈ (t.dropWhile isBlank).head?) :
    isBlank c = false := by
  have := List.head?_dropWhile_not isBlank t
  rw [Option.mem_def.1 h] at this
  exact this

/-- The blanks that trimming takes off, and what it leaves. -/
theorem exists_eq_trim (t : Text) :
    ∃ l r, AllBlank l ∧ AllBlank r ∧ IsTrimmed t.trim ∧ t = l ++ t.trim ++ r := by
  let u := t.trimLeft
  let r := (u.reverse.takeWhile isBlank).reverse
  have hu : u = u.trimRight ++ r := by
    rw [trimRight, ← List.reverse_append, List.takeWhile_append_dropWhile, List.reverse_reverse]
  refine ⟨t.takeWhile isBlank, r, takeWhile_isBlank t, ?_, ⟨?_, ?_⟩, ?_⟩
  · intro c hc
    exact takeWhile_isBlank u.reverse c (List.mem_reverse.1 hc)
  -- the middle begins where the left pass stopped, as the right pass only takes off its end
  · intro c hc
    apply head?_dropWhile_isBlank (t := t)
    show c ∈ u.head?
    rw [hu, List.head?_append, show u.trimRight.head? = some c from hc]
    rfl
  · intro c hc
    rw [trim, trimRight, List.getLast?_reverse] at hc
    exact head?_dropWhile_isBlank hc
  · rw [List.append_assoc, trim, ← hu]
    exact List.takeWhile_append_dropWhile.symm

theorem allBlank_of_trim_eq_nil {t : Text} (h : t.trim = []) : AllBlank t := by
  obtain ⟨l, r, hl, hr, -, ht⟩ := exists_eq_trim t
  rw [h, List.append_nil] at ht
  rw [ht]
  exact fun c hc => (List.mem_append.1 hc).elim (hl c) (hr c)

/-! ### Words -/

/-- Not empty, and no blank in it. -/
structure IsWord (w : Text) : Prop where
  ne_nil : w ≠ []
  not_blank : ∀ c ∈ w, isBlank c = false

namespace IsWord

variable {w : Text} (h : IsWord w)

include h

theorem isTrimmed : IsTrimmed w :=
  isTrimmed_of_forall_not_blank h.not_blank

theorem not_mem_of_isBlank {c : Char} (hc : isBlank c = true) : c ∉ w := fun hmem =>
  absurd (h.not_blank c hmem) (by simp [hc])

theorem space_not_mem : ' ' ∉ w :=
  h.not_mem_of_isBlank (by decide)

end IsWord

/-! ### Cutting at the first character of a kind -/

theorem span_append_cons {p : Char → Bool} {s : Text} (hs : ∀ c ∈ s, p c = true) {c : Char}
    (hc : p c = false) (t : Text) : (s ++ c :: t).span p = (s, c :: t) := by
  have hneg : ¬p c = true := by simp [hc]
  rw [List.span_eq_takeWhile_dropWhile, List.takeWhile_append_of_pos hs,
    List.dropWhile_append_of_pos hs, List.takeWhile_cons_of_neg hneg,
    List.dropWhile_cons_of_neg hneg, List.append_nil]

theorem span_of_forall {p : Char → Bool} {s : Text} (hs : ∀ c ∈ s, p c = true) :
    s.span p = (s, []) := by
  have htake : (s ++ []).takeWhile p = s ++ [] := List.takeWhile_append_of_pos hs
  have hdrop : (s ++ []).dropWhile p = [] := List.dropWhile_append_of_pos hs
  rw [List.append_nil] at htake hdrop
  rw [List.span_eq_takeWhile_dropWhile, htake, hdrop]

/-- The first blank ends the first part. -/
theorem cutAtBlank_append_cons {s : Text} (hs : ∀ c ∈ s, isBlank c = false) {c : Char}
    (hc : isBlank c = true) (t : Text) : cutAtBlank (s ++ c :: t) = (s, some t) := by
  have hs' : ∀ c ∈ s, (!isBlank c) = true := by simpa using hs
  rw [cutAtBlank, span_append_cons hs' (by simp [hc])]

theorem cutAtBlank_of_forall_not_blank {s : Text} (hs : ∀ c ∈ s, isBlank c = false) :
    cutAtBlank s = (s, none) := by
  have hs' : ∀ c ∈ s, (!isBlank c) = true := by simpa using hs
  rw [cutAtBlank, span_of_forall hs']

end SshKeys.Text
