import SshKeys.Proofs.Except
import SshKeys.Proofs.Text

/-!
Base64: reading undoes writing, and reads nothing else.

`decode_encode` is by induction on groups of three octets. A group in the
middle and a last group of three octets are read by different branches, so
`decodeGroups_symbols` first gives both one equation. The other direction,
`eq_encode_of_decodeGroups`, goes along the groups that are read: each digit
that is found has one symbol, and the checks at the end of a group leave no
freedom in the bits and pads. The rest of the module says which characters the
encoded text has, for those who lay it out in lines.
-/

namespace SshKeys.Base64

/-! ### Groups -/

theorem digitAt_symbol (offset : Nat) {d : Nat} (h : d < 64) :
    digitAt offset (symbol d) = .ok d := by
  simp only [digitAt, digit?_symbol h]

/-- The symbols of the last group that come before its pads. -/
theorem lastGroup_symbols (start : Nat) (digits : List Nat) {more : List Nat}
    (h : ∀ d ∈ more, d < 64) (rest : Bytes) :
    lastGroup start digits 0 (more.map symbol ++ rest) =
      lastGroup start (digits ++ more) 0 rest := by
  induction more generalizing digits with
  | nil => simp
  | cons d more ih =>
      have hd : d < 64 := h d (by simp)
      have hmore : ∀ x ∈ more, x < 64 := fun x hx => h x (by simp [hx])
      rw [List.map_cons, List.cons_append, lastGroup, if_neg (symbol_ne_pad hd),
        if_neg (Nat.lt_irrefl 0), digitAt_symbol _ hd, ok_bind, ih _ hmore,
        List.append_assoc, List.singleton_append]

/-- The pads at the end of a group that has at least two symbols. -/
theorem lastGroup_pads (start : Nat) {digits : List Nat} (h : 2 ≤ digits.length)
    (pads count : Nat) :
    lastGroup start digits pads (List.replicate count pad) = .ok (digits, pads + count) := by
  induction count generalizing pads with
  | zero => rfl
  | succ count ih =>
      have hplace : ¬digits.length + pads < 2 := by omega
      rw [List.replicate_succ, lastGroup, if_pos rfl, if_neg hplace, ih, Nat.add_right_comm,
        Nat.add_assoc]

/-- A group with no other behind it. -/
theorem decodeGroups_last (start : Nat) {group : Bytes} (hne : group ≠ [])
    (hlength : group.length ≤ 4) :
    decodeGroups start group = lastGroup start [] 0 group >>= closeGroup start := by
  rw [decodeGroups]
  · exact hne
  · rintro a b c d e rest rfl
    simp only [List.length_cons] at hlength
    omega

/-- The three octets that four digits make up. -/
def octets (w x y z : Nat) : Bytes :=
  [UInt8.ofNat (w * 4 + x / 16), UInt8.ofNat (x % 16 * 16 + y / 4), UInt8.ofNat (y % 4 * 64 + z)]

/-- Four symbols in front of any number of groups, none included. -/
theorem decodeGroups_symbols (start : Nat) {w x y z : Nat} (hw : w < 64) (hx : x < 64)
    (hy : y < 64) (hz : z < 64) {rest more : Bytes}
    (hrest : decodeGroups (start + 4) rest = .ok more) :
    decodeGroups start (symbol w :: symbol x :: symbol y :: symbol z :: rest) =
      .ok (octets w x y z ++ more) := by
  -- the last group has a branch of its own, with pads in mind
  cases rest with
  | nil =>
      have hmore : [] = more := by simpa [decodeGroups] using hrest
      have hdigits : ∀ d ∈ [w, x, y, z], d < 64 := by simp [hw, hx, hy, hz]
      have hgroup := lastGroup_symbols start [] hdigits []
      rw [← hmore, decodeGroups_last start (by simp) (by simp)]
      exact congrArg (· >>= closeGroup start) hgroup
  | cons e rest =>
      rw [decodeGroups, digitAt_symbol _ hw, digitAt_symbol _ hx, digitAt_symbol _ hy,
        digitAt_symbol _ hz, hrest]
      rfl

theorem ofNat_eq {n : Nat} {a : UInt8} (h : n = a.toNat) : UInt8.ofNat n = a := by
  rw [h, UInt8.ofNat_toNat]

theorem octets_digits (a b c : UInt8) :
    octets (a.toNat / 4) (a.toNat % 4 * 16 + b.toNat / 16) (b.toNat % 16 * 4 + c.toNat / 64)
      (c.toNat % 64) = [a, b, c] := by
  have hb := b.toNat_lt
  have hc := c.toNat_lt
  unfold octets
  rw [ofNat_eq (a := a) (by omega), ofNat_eq (a := b) (by omega), ofNat_eq (a := c) (by omega)]

/-- A last group of two symbols and two pads. -/
theorem decodeGroups_one (start : Nat) (a : UInt8) :
    decodeGroups start (encode [a]) = .ok [a] := by
  have ha := a.toNat_lt
  have hdigits : ∀ d ∈ [a.toNat / 4, a.toNat % 4 * 16], d < 64 := by
    simp only [List.mem_cons, List.not_mem_nil, or_false, forall_eq_or_imp, forall_eq]
    omega
  have hgroup : lastGroup start [] 0 (encode [a]) =
      .ok ([a.toNat / 4, a.toNat % 4 * 16], 2) :=
    (lastGroup_symbols start [] hdigits [pad, pad]).trans
      (lastGroup_pads start (by simp) 0 2)
  have hbits : a.toNat % 4 * 16 % 16 = 0 := by omega
  rw [decodeGroups_last start (by simp [encode]) (by simp [encode]), hgroup, ok_bind,
    closeGroup, if_neg (by decide), if_neg (by simp [hbits]), ofNat_eq (a := a) (by omega)]

theorem decodeGroups_two (start : Nat) (a b : UInt8) :
    decodeGroups start (encode [a, b]) = .ok [a, b] := by
  have ha := a.toNat_lt
  have hb := b.toNat_lt
  have hdigits : ∀ d ∈ [a.toNat / 4, a.toNat % 4 * 16 + b.toNat / 16, b.toNat % 16 * 4],
      d < 64 := by
    simp only [List.mem_cons, List.not_mem_nil, or_false, forall_eq_or_imp, forall_eq]
    omega
  have hgroup : lastGroup start [] 0 (encode [a, b]) =
      .ok ([a.toNat / 4, a.toNat % 4 * 16 + b.toNat / 16, b.toNat % 16 * 4], 1) :=
    (lastGroup_symbols start [] hdigits [pad]).trans (lastGroup_pads start (by simp) 0 1)
  have hbits : b.toNat % 16 * 4 % 4 = 0 := by omega
  rw [decodeGroups_last start (by simp [encode]) (by simp [encode]), hgroup, ok_bind,
    closeGroup, if_neg (by decide), if_neg (by simp [hbits]), ofNat_eq (a := a) (by omega),
    ofNat_eq (a := b) (by omega)]

theorem decodeGroups_encode (b : Bytes) (start : Nat) :
    decodeGroups start (encode b) = .ok b := by
  fun_induction encode b generalizing start with
  | case1 => rfl
  | case2 a => exact decodeGroups_one start a
  | case3 a b => exact decodeGroups_two start a b
  | case4 a b c rest ih =>
      have ha := a.toNat_lt
      have hb := b.toNat_lt
      have hc := c.toNat_lt
      rw [decodeGroups_symbols start (by omega) (by omega) (by omega) (by omega) (ih _),
        octets_digits]
      rfl

/-! ### Whole texts -/

theorem length_encode_mod (b : Bytes) : (encode b).length % 4 = 0 := by
  fun_induction encode b with
  | case1 => rfl
  | case2 => simp
  | case3 => simp
  | case4 a b c rest ih =>
      simp only [List.length_cons]
      omega

theorem strayEnd?_encode (b : Bytes) : strayEnd? (encode b) = none := by
  have hlength := length_encode_mod b
  unfold strayEnd?
  split
  · rfl
  · rw [if_neg]
    omega

theorem decode_encode (b : Bytes) : decode (encode b) = .ok b := by
  rw [decode, strayEnd?_encode]
  exact decodeGroups_encode b 0

/-! ### One form only -/

theorem symbol_of_digit? {s : UInt8} {d : Nat} (h : digit? s = some d) :
    d < 64 ∧ symbol d = s := by
  have hall : ∀ n : Fin 256, (digit? (UInt8.ofNat n)).all
      (fun d => decide (d < 64) && symbol d == UInt8.ofNat n) = true := by decide +kernel
  have hs := hall ⟨s.toNat, s.toNat_lt⟩
  simpa [UInt8.ofNat_toNat, h] using hs

theorem digitAt_eq_ok {offset : Nat} {s : UInt8} {d : Nat} (h : digitAt offset s = .ok d) :
    d < 64 ∧ symbol d = s := by
  unfold digitAt at h
  split at h
  · cases h
    exact symbol_of_digit? ‹_›
  · nomatch h

/-- A last group is symbols and then pads, with no symbol after a pad. -/
theorem lastGroup_eq_ok {start : Nat} {digits digits' : List Nat} {pads pads' : Nat} {s : Bytes}
    (h : lastGroup start digits pads s = .ok (digits', pads')) :
    ∃ more count, s = more.map symbol ++ List.replicate count pad ∧ digits' = digits ++ more ∧
      pads' = pads + count ∧ (∀ d ∈ more, d < 64) ∧ (0 < pads → more = []) := by
  induction s generalizing digits pads with
  | nil =>
      cases h
      exact ⟨[], 0, rfl, (List.append_nil _).symm, rfl, by simp, fun _ => rfl⟩
  | cons c s ih =>
      rw [lastGroup] at h
      by_cases hpad : c = pad
      · rw [if_pos hpad] at h
        split at h
        · nomatch h
        · obtain ⟨more, count, hs, hdigits, hpads, -, hnone⟩ := ih h
          obtain rfl := hnone (Nat.succ_pos pads)
          refine ⟨[], count + 1, ?_, hdigits, by omega, by simp, fun _ => rfl⟩
          rw [hpad, hs]
          rfl
      · rw [if_neg hpad] at h
        split at h
        · nomatch h
        · rename_i hnone
          obtain ⟨d, hdigit, hrest⟩ := bind_eq_ok_iff.1 h
          obtain ⟨hd, rfl⟩ := digitAt_eq_ok hdigit
          obtain ⟨more, count, hs, hdigits, hpads, hmore, -⟩ := ih hrest
          refine ⟨d :: more, count, ?_, ?_, hpads, ?_, fun hpos => absurd hpos hnone⟩
          · rw [hs]
            rfl
          · rw [hdigits, List.append_assoc, List.singleton_append]
          · exact List.forall_mem_cons.2 ⟨hd, hmore⟩

theorem toNat_ofNat_of_eq {n : Nat} (h : n < 256) : (UInt8.ofNat n).toNat = n := by
  rw [UInt8.toNat_ofNat']
  omega

/-- The octets of four digits are written as the symbols of these digits. -/
theorem encode_octets {w x y z : Nat} (hw : w < 64) (hx : x < 64) (hy : y < 64) (hz : z < 64)
    (rest : Bytes) :
    encode (octets w x y z ++ rest) =
      symbol w :: symbol x :: symbol y :: symbol z :: encode rest := by
  have ha : (UInt8.ofNat (w * 4 + x / 16)).toNat = w * 4 + x / 16 :=
    toNat_ofNat_of_eq (by omega)
  have hb : (UInt8.ofNat (x % 16 * 16 + y / 4)).toNat = x % 16 * 16 + y / 4 :=
    toNat_ofNat_of_eq (by omega)
  have hc : (UInt8.ofNat (y % 4 * 64 + z)).toNat = y % 4 * 64 + z :=
    toNat_ofNat_of_eq (by omega)
  have hfirst : (w * 4 + x / 16) / 4 = w := by omega
  have hsecond : (w * 4 + x / 16) % 4 * 16 + (x % 16 * 16 + y / 4) / 16 = x := by omega
  have hthird : (x % 16 * 16 + y / 4) % 16 * 4 + (y % 4 * 64 + z) / 64 = y := by omega
  have hfourth : (y % 4 * 64 + z) % 64 = z := by omega
  show encode (_ :: _ :: _ :: rest) = _
  rw [encode, ha, hb, hc, hfirst, hsecond, hthird, hfourth]

/-- A group that is closed has the canonical form of its octets. -/
theorem closeGroup_eq_ok {start : Nat} {digits : List Nat} {pads : Nat} {b : Bytes}
    (hlength : digits.length + pads ≤ 4) (hdigits : ∀ d ∈ digits, d < 64)
    (h : closeGroup start (digits, pads) = .ok b) :
    digits.map symbol ++ List.replicate pads pad = encode b := by
  match digits, h with
  | [w, x], h =>
      simp only [List.forall_mem_cons] at hdigits
      obtain ⟨hw, hx, -⟩ := hdigits
      rw [closeGroup] at h
      split at h
      · nomatch h
      split at h
      · nomatch h
      rename_i hpads hbits
      cases h
      obtain rfl : pads = 2 := by
        simp only [List.length_cons, List.length_nil] at hlength
        omega
      have ha : (UInt8.ofNat (w * 4 + x / 16)).toNat = w * 4 + x / 16 :=
        toNat_ofNat_of_eq (by omega)
      have hfirst : (w * 4 + x / 16) / 4 = w := by omega
      have hsecond : (w * 4 + x / 16) % 4 * 16 = x := by omega
      rw [encode, ha, hfirst, hsecond]
      rfl
  | [w, x, y], h =>
      simp only [List.forall_mem_cons] at hdigits
      obtain ⟨hw, hx, hy, -⟩ := hdigits
      rw [closeGroup] at h
      split at h
      · nomatch h
      split at h
      · nomatch h
      rename_i hpads hbits
      cases h
      obtain rfl : pads = 1 := by
        simp only [List.length_cons, List.length_nil] at hlength
        omega
      have ha : (UInt8.ofNat (w * 4 + x / 16)).toNat = w * 4 + x / 16 :=
        toNat_ofNat_of_eq (by omega)
      have hb : (UInt8.ofNat (x % 16 * 16 + y / 4)).toNat = x % 16 * 16 + y / 4 :=
        toNat_ofNat_of_eq (by omega)
      have hfirst : (w * 4 + x / 16) / 4 = w := by omega
      have hsecond : (w * 4 + x / 16) % 4 * 16 + (x % 16 * 16 + y / 4) / 16 = x := by omega
      have hthird : (x % 16 * 16 + y / 4) % 16 * 4 = y := by omega
      rw [encode, ha, hb, hfirst, hsecond, hthird]
      rfl
  | [w, x, y, z], h =>
      simp only [List.forall_mem_cons] at hdigits
      obtain ⟨hw, hx, hy, hz, -⟩ := hdigits
      cases h
      obtain rfl : pads = 0 := by
        simp only [List.length_cons, List.length_nil] at hlength
        omega
      exact (encode_octets hw hx hy hz []).symm
  | [], h => nomatch h
  | [_], h => nomatch h
  | _ :: _ :: _ :: _ :: _ :: _, h => nomatch h

theorem eq_encode_of_decodeGroups {start : Nat} {s b : Bytes} (h : decodeGroups start s = .ok b) :
    s = encode b := by
  fun_induction decodeGroups start s generalizing b with
  | case1 =>
      cases h
      rfl
  | case2 start c₁ c₂ c₃ c₄ c₅ rest ih =>
      simp only [bind_eq_ok_iff] at h
      obtain ⟨w, hfirst, x, hsecond, y, hthird, z, hfourth, more, hmore, hb⟩ := h
      obtain ⟨hw, rfl⟩ := digitAt_eq_ok hfirst
      obtain ⟨hx, rfl⟩ := digitAt_eq_ok hsecond
      obtain ⟨hy, rfl⟩ := digitAt_eq_ok hthird
      obtain ⟨hz, rfl⟩ := digitAt_eq_ok hfourth
      cases hb
      rw [ih hmore]
      exact (encode_octets hw hx hy hz more).symm
  | case3 start group hne hlong =>
      have hlength : group.length ≤ 4 := by
        match group with
        | [] | [_] | [_, _] | [_, _, _] | [_, _, _, _] => simp
        | a :: b :: c :: d :: e :: rest => exact absurd rfl (hlong a b c d e rest)
      obtain ⟨⟨digits, pads⟩, hlast, hclose⟩ := bind_eq_ok_iff.1 h
      obtain ⟨more, count, rfl, hdigits, hpads, hmore, -⟩ := lastGroup_eq_ok hlast
      rw [List.nil_append] at hdigits
      rw [Nat.zero_add] at hpads
      subst hdigits hpads
      refine closeGroup_eq_ok ?_ hmore hclose
      simpa using hlength

/-- An octet string has one accepted form. -/
theorem decode_ok_iff {s b : Bytes} : decode s = .ok b ↔ s = encode b := by
  constructor
  · intro h
    unfold decode at h
    split at h
    · nomatch h
    · exact eq_encode_of_decodeGroups h
  · rintro rfl
    exact decode_encode b

/-! ### Characters -/

/-- What holds of the pad and of each symbol holds all over an encoded text. -/
theorem forall_mem_encode {p : UInt8 → Prop} (hpad : p pad)
    (hsymbol : ∀ d : Fin 64, p (symbol d)) (b : Bytes) : ∀ s ∈ encode b, p s := by
  have hdigit {d : Nat} (h : d < 64) : p (symbol d) := hsymbol ⟨d, h⟩
  fun_induction encode b with
  | case1 => simp
  | case2 a =>
      have ha := a.toNat_lt
      simp only [List.forall_mem_cons, List.not_mem_nil, false_implies, implies_true, and_true]
      exact ⟨hdigit (by omega), hdigit (by omega), hpad, hpad⟩
  | case3 a b =>
      have ha := a.toNat_lt
      have hb := b.toNat_lt
      simp only [List.forall_mem_cons, List.not_mem_nil, false_implies, implies_true, and_true]
      exact ⟨hdigit (by omega), hdigit (by omega), hdigit (by omega), hpad⟩
  | case4 a b c rest ih =>
      have ha := a.toNat_lt
      have hb := b.toNat_lt
      have hc := c.toNat_lt
      simp only [List.forall_mem_cons]
      exact ⟨hdigit (by omega), hdigit (by omega), hdigit (by omega), hdigit (by omega), ih⟩

theorem forall_mem_encodeText {p : Char → Prop} (hpad : p '=')
    (hsymbol : ∀ d : Fin 64, p (Char.ofNat (symbol d).toNat)) (b : Bytes) :
    ∀ c ∈ encodeText b, p c := by
  intro c hc
  obtain ⟨s, hs, rfl⟩ := List.mem_map.1 hc
  exact forall_mem_encode (p := fun s => p (Char.ofNat s.toNat)) hpad hsymbol b s hs

theorem not_blank_of_mem_encodeText {b : Bytes} {c : Char} (h : c ∈ encodeText b) :
    Text.isBlank c = false :=
  forall_mem_encodeText (p := fun c => Text.isBlank c = false) (by decide) (by decide) b c h

theorem ne_dash_of_mem_encodeText {b : Bytes} {c : Char} (h : c ∈ encodeText b) : c ≠ '-' :=
  forall_mem_encodeText (p := (· ≠ '-')) (by decide) (by decide) b c h

/-- Each symbol is one octet in UTF-8. -/
theorem utf8_encodeText (b : Bytes) : (encodeText b).utf8 = encode b := by
  have hsingle : ∀ s ∈ encode b, String.utf8EncodeChar (Char.ofNat s.toNat) = [s] :=
    forall_mem_encode (by decide) (by decide) b
  rw [Text.utf8, encodeText, List.flatMap_map, List.flatMap_def, List.map_congr_left hsingle,
    ← List.flatMap_def, List.flatMap_singleton']

theorem encodeText_ne_nil {b : Bytes} (h : b ≠ []) : encodeText b ≠ [] := by
  have hencode : encode b ≠ [] := by
    fun_cases encode b <;> simp_all
  simpa [encodeText] using hencode

theorem isWord_encodeText {b : Bytes} (h : b ≠ []) : Text.IsWord (encodeText b) :=
  ⟨encodeText_ne_nil h, fun _ hc => not_blank_of_mem_encodeText hc⟩

theorem decode_utf8_eq_ok_iff {t : Text} {b : Bytes} :
    decode t.utf8 = .ok b ↔ t = encodeText b := by
  rw [decode_ok_iff, ← utf8_encodeText, Text.utf8_inj]

theorem encodeText_inj {a b : Bytes} : encodeText a = encodeText b ↔ a = b := by
  constructor
  · intro h
    have ha := decode_utf8_eq_ok_iff.2 (rfl : encodeText a = encodeText a)
    rw [decode_utf8_eq_ok_iff.2 h] at ha
    exact (Except.ok.inj ha).symm
  · rintro rfl
    rfl

theorem decodeBase64_eq_ok_iff {t : Text} {b : Bytes} :
    decodeBase64 t = .ok b ↔ t = encodeText b := by
  rw [decodeBase64, mapError_eq_ok_iff, decode_utf8_eq_ok_iff]

theorem decodeBase64_encodeText (b : Bytes) : decodeBase64 (encodeText b) = .ok b :=
  decodeBase64_eq_ok_iff.2 rfl

end SshKeys.Base64
