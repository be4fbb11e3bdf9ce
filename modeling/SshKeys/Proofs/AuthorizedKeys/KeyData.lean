import Mathlib.Data.Option.Basic
import SshKeys.AuthorizedKeys.Entry
import SshKeys.Ed25519.Key
import SshKeys.Proofs.AuthorizedKeys.Managed
import SshKeys.Proofs.Except
import SshKeys.Proofs.PublicKey
import SshKeys.Proofs.Wire.Reading

/-!
Key data as the entries of a file have it.

`Scan.Finds` is for a walk through key data what `Wire.Returns` is for a read:
something is found exactly when the octets that stand for it are consumed. The
canonical form of a key consists of these octets, with one exception. The length
in front of an Ed25519 point may say more than the point has, and then the
canonical form is other data (`canonicalData_eq`).
-/

namespace SshKeys.AuthorizedKeys

open Wire (Reader)
open Wire.Reader (consumes_append consumes_nil consumes_strings_cons consumes_strings_nil)

namespace Scan

variable {α β : Type} {r r' r'' : Reader}

/-- Started at `r`, the walk finds `a` and leaves the reader at `r'`. -/
def Finds (x : Scan α) (r : Reader) (a : α) (r' : Reader) : Prop :=
  x.run.run r = (some a, r')

theorem run_bind (x : Scan α) (f : α → Scan β) (r : Reader) :
    (x >>= f).run.run r =
      match x.run.run r with
      | (some a, r') => (f a).run.run r'
      | (none, r') => (none, r') := by
  rw [OptionT.run_bind, Option.elimM, StateT.run_bind]
  rcases x.run.run r with ⟨_ | a, r'⟩ <;> rfl

theorem finds_pure {a b : α} : Finds (pure a : Scan α) r b r' ↔ b = a ∧ r' = r := by
  show ((some a, r) : Option α × Reader) = (some b, r') ↔ _
  simp [eq_comm]

theorem finds_bind {x : Scan α} {f : α → Scan β} {b : β} :
    Finds (x >>= f) r b r'' ↔ ∃ a r', Finds x r a r' ∧ Finds (f a) r' b r'' := by
  unfold Finds
  rw [run_bind]
  rcases x.run.run r with ⟨_ | a, r'⟩
  · constructor
    · intro h
      nomatch h
    · rintro ⟨a, s, hx, -⟩
      nomatch hx
  · constructor
    · intro h
      exact ⟨a, r', rfl, h⟩
    · rintro ⟨a', s, hx, hf⟩
      cases hx
      exact hf

theorem not_finds_failure {a : α} : ¬Finds (failure : Scan α) r a r' := by
  intro h
  nomatch h

theorem finds_guard {c : Prop} [Decidable c] {u : Unit} :
    Finds (guard c : Scan Unit) r u r' ↔ c ∧ r' = r := by
  unfold guard
  split
  · rename_i hc
    simp [finds_pure, hc]
  · rename_i hc
    simp [not_finds_failure, hc]

theorem finds_get {a : Reader} : Finds (get : Scan Reader) r a r' ↔ a = r ∧ r' = r := by
  show ((some r, r) : Option Reader × Reader) = (some a, r') ↔ _
  simp [eq_comm]

theorem finds_item {read : Wire.Read α} {a : α} :
    Finds (item read) r a r' ↔ Wire.Returns read r a r' := by
  show ((read.run.run r).1.toOption, (read.run.run r).2) = (some a, r') ↔
    read.run.run r = (.ok a, r')
  rcases read.run.run r with ⟨e | a', r''⟩
  · exact ⟨nofun, nofun⟩
  · constructor
    · intro h
      cases h
      rfl
    · intro h
      cases h
      rfl

/-! ### Parts of key data -/

theorem finds_stringLength {length : Nat} :
    Finds stringLength r length r' ↔
      length ≤ longestString ∧ ∃ v : UInt32, v.toNat = length ∧ r.Consumes (Wire.word v) r' := by
  rw [stringLength, finds_bind]
  simp only [finds_item, Wire.returns_word, finds_bind, finds_guard, finds_pure]
  constructor
  · rintro ⟨v, s, hword, _, _, ⟨hlong, rfl⟩, rfl, rfl⟩
    exact ⟨hlong, v, rfl, hword⟩
  · rintro ⟨hlong, v, rfl, hword⟩
    exact ⟨v, r', hword, (), r', ⟨hlong, rfl⟩, rfl, rfl⟩

theorem finds_string {data : Bytes} :
    Finds string r data r' ↔
      data.length ≤ longestString ∧ r.Consumes (Wire.string data) r' := by
  have hlongest : longestString < UInt32.size := by decide
  rw [string, finds_bind]
  simp only [finds_stringLength, finds_item, Wire.returns_raw]
  constructor
  · rintro ⟨_, s, ⟨hlong, v, hv, hword⟩, rfl, hdata⟩
    have hlength : UInt32.ofNat data.length = v := by rw [← hv, UInt32.ofNat_toNat]
    refine ⟨hlong, ?_⟩
    rw [Wire.string, hlength]
    exact consumes_append.2 ⟨s, hword, hdata⟩
  · rintro ⟨hlong, hdata⟩
    obtain ⟨s, hword, hdata⟩ := consumes_append.1 hdata
    exact ⟨_, s, ⟨hlong, _, UInt32.toNat_ofNat_of_lt' (by omega), hword⟩, rfl, hdata⟩

theorem finds_text {t : Text} :
    Finds text r t r' ↔ t.utf8.length ≤ longestString ∧ r.Consumes (Wire.string t.utf8) r' := by
  rw [text, finds_bind]
  simp only [finds_string]
  constructor
  · rintro ⟨data, s, hdata, htext⟩
    cases hutf8 : Text.ofUtf8? data with
    | none =>
        rw [hutf8] at htext
        exact absurd htext not_finds_failure
    | some u =>
        rw [hutf8] at htext
        obtain ⟨rfl, rfl⟩ := finds_pure.1 htext
        rwa [← Text.eq_utf8_of_ofUtf8? hutf8]
  · intro h
    refine ⟨t.utf8, r', h, ?_⟩
    rw [Text.ofUtf8?_utf8]
    exact finds_pure.2 ⟨rfl, rfl⟩

theorem finds_integer {body : Bytes} :
    Finds integer r body r' ↔ isShortest body = true ∧ Finds string r body r' := by
  rw [integer, finds_bind]
  simp only [finds_bind, finds_guard, finds_pure]
  constructor
  · rintro ⟨_, s, hbody, _, _, ⟨hshort, rfl⟩, rfl, rfl⟩
    exact ⟨hshort, hbody⟩
  · rintro ⟨hshort, hbody⟩
    exact ⟨body, r', hbody, (), r', ⟨hshort, rfl⟩, rfl, rfl⟩

/-- The point stands behind a length that covers it. -/
theorem finds_edwardsPoint {point : Bytes} :
    Finds edwardsPoint r point r' ↔
      point.length = edwardsLength ∧ ∃ v : UInt32, edwardsLength ≤ v.toNat ∧
        v.toNat ≤ longestString ∧ r.Consumes (Wire.word v ++ point) r' := by
  rw [edwardsPoint, finds_bind]
  simp only [finds_bind, finds_guard, finds_stringLength, finds_item, Wire.returns_raw,
    consumes_append]
  constructor
  · rintro ⟨_, s, ⟨hlong, v, rfl, hword⟩, _, _, ⟨hcover, rfl⟩, hlength, hpoint⟩
    exact ⟨hlength, v, hcover, hlong, _, hword, hpoint⟩
  · rintro ⟨hlength, v, hcover, hlong, s, hword, hpoint⟩
    exact ⟨_, s, ⟨hlong, v, rfl, hword⟩, (), s, ⟨hcover, rfl⟩, hlength, hpoint⟩

/-! ### Fields -/

theorem consumes_of_finds_curvePoint {curve : String} {size : Nat} {name point : Bytes}
    (h : Finds (curvePoint curve size) r (name, point) r'') :
    ∃ r', r.Consumes (Wire.string name) r' ∧ r'.Consumes (Wire.string point) r'' := by
  simp only [curvePoint, finds_bind, finds_guard, finds_pure, finds_string] at h
  obtain ⟨_, s, ⟨-, hname⟩, _, _, ⟨-, rfl⟩, _, _, ⟨-, hpoint⟩, _, _, ⟨-, rfl⟩, hpair, rfl⟩ := h
  cases hpair
  exact ⟨_, hname, hpoint⟩

theorem consumes_of_finds_ecdsa {curve : String} {size : Nat} {found : List Bytes}
    (h : Finds (ecdsa curve size) r found r') :
    r.Consumes (Wire.encode (found.map .string)) r' := by
  simp only [ecdsa, finds_bind] at h
  obtain ⟨⟨name, point⟩, s, hpoint, h⟩ := h
  simp only [finds_guard, finds_pure] at h
  obtain ⟨_, _, ⟨-, rfl⟩, rfl, rfl⟩ := h
  obtain ⟨s, hname, hpoint⟩ := consumes_of_finds_curvePoint hpoint
  simp only [consumes_strings_cons, consumes_strings_nil]
  exact ⟨s, hname, _, hpoint, rfl⟩

/-- A point with a length in front of it that says more. -/
def Overstates (octets : Bytes) : Prop :=
  ∃ (v : UInt32) (point rest : Bytes), octets = Wire.word v ++ (point ++ rest) ∧
    point.length = edwardsLength ∧ edwardsLength < v.toNat

theorem consumes_of_finds_edwardsPoint {point : Bytes} (h : Finds edwardsPoint r point r') :
    r.Consumes (Wire.string point) r' ∨ Overstates r.remaining := by
  obtain ⟨hlength, v, hcover, -, hconsumes⟩ := finds_edwardsPoint.1 h
  rcases Nat.lt_or_eq_of_le hcover with hmore | hexact
  · refine .inr ⟨v, point, r'.remaining, ?_, hlength, hmore⟩
    rw [hconsumes.remaining, List.append_assoc]
  · left
    rwa [Wire.string, hlength, hexact, UInt32.ofNat_toNat]

/-- The fields of a key, written one after the other, are the octets that were read. -/
theorem consumes_of_finds_fields {algorithm : Text} {found : List Bytes}
    (h : Finds (fields algorithm) r found r') :
    r.Consumes (Wire.encode (found.map .string)) r' ∨ Overstates r.remaining := by
  unfold fields at h
  split at h
  case h_1 =>
    simp only [finds_bind, finds_pure] at h
    obtain ⟨point, _, hpoint, rfl, rfl⟩ := h
    simp only [consumes_strings_cons, consumes_strings_nil, exists_eq_right']
    exact consumes_of_finds_edwardsPoint hpoint
  case h_7 =>
    simp only [finds_bind, finds_text, finds_pure] at h
    obtain ⟨point, s, hpoint, t, _, ⟨-, htext⟩, rfl, rfl⟩ := h
    simp only [consumes_strings_cons, consumes_strings_nil, exists_eq_right']
    exact (consumes_of_finds_edwardsPoint hpoint).imp_left fun h => ⟨s, h, htext⟩
  all_goals left
  case h_2 =>
    simp only [finds_bind, finds_integer, finds_string, finds_pure] at h
    obtain ⟨e, r₁, ⟨-, -, he⟩, n, _, ⟨-, -, hn⟩, rfl, rfl⟩ := h
    simp only [consumes_strings_cons, consumes_strings_nil, exists_eq_right']
    exact ⟨r₁, he, hn⟩
  case h_3 =>
    simp only [finds_bind, finds_integer, finds_string, finds_pure] at h
    obtain ⟨p, r₁, ⟨-, -, hp⟩, q, r₂, ⟨-, -, hq⟩, g, r₃, ⟨-, -, hg⟩, y, _, ⟨-, -, hy⟩, rfl,
      rfl⟩ := h
    simp only [consumes_strings_cons, consumes_strings_nil, exists_eq_right']
    exact ⟨r₁, hp, r₂, hq, r₃, hg, hy⟩
  case h_4 | h_5 | h_6 => exact consumes_of_finds_ecdsa h
  case h_8 =>
    simp only [finds_bind] at h
    obtain ⟨⟨name, point⟩, s, hpoint, h⟩ := h
    simp only [finds_text, finds_pure] at h
    obtain ⟨t, _, ⟨-, htext⟩, rfl, rfl⟩ := h
    obtain ⟨s', hname, hpoint⟩ := consumes_of_finds_curvePoint hpoint
    simp only [consumes_strings_cons, consumes_strings_nil, exists_eq_right']
    exact ⟨s', hname, s, hpoint, htext⟩
  case h_9 =>
    simp only [finds_bind, finds_guard, finds_string, finds_pure] at h
    obtain ⟨_, _, ⟨-, rfl⟩, field, _, ⟨-, hfield⟩, rfl, rfl⟩ := h
    simp only [consumes_strings_cons, consumes_strings_nil, exists_eq_right']
    exact hfield

/-- A walk through all of the key data: a name, and fields up to the end. -/
theorem finds_key {algorithm : Text} {found : List Bytes} :
    Finds key r (algorithm, found) r' ↔
      ∃ name s, name.utf8.length ≤ longestName ∧ algorithm = algorithmOf name ∧
        r.Consumes (Wire.string name.utf8) s ∧ Finds (fields algorithm) s found r' ∧
        r'.remaining = [] := by
  rw [key, finds_bind]
  simp only [finds_bind, finds_text, finds_guard, finds_pure, finds_get]
  constructor
  · rintro ⟨name, s, ⟨-, hname⟩, _, _, ⟨hlength, rfl⟩, _, s', hfields, _, _, ⟨rfl, rfl⟩, _, _,
      ⟨hempty, rfl⟩, hfound, rfl⟩
    cases hfound
    exact ⟨name, _, hlength, rfl, hname, hfields, List.isEmpty_iff.1 hempty⟩
  · rintro ⟨name, s, hlength, rfl, hname, hfields, hempty⟩
    have hlong : longestName ≤ longestString := by decide
    exact ⟨name, s, ⟨Nat.le_trans hlength hlong, hname⟩, (), s, ⟨hlength, rfl⟩, found, r', hfields,
      r', r', ⟨rfl, rfl⟩, (), r', ⟨List.isEmpty_iff.2 hempty, rfl⟩, rfl, rfl⟩

end Scan

/-- No name that begins like a key type stands for another algorithm. -/
theorem algorithmOf_of_typeStart {name : Text} (h : typeStart.isPrefixOf name = true) :
    Scan.algorithmOf name = name := by
  have hother {other : String} (hother : typeStart.isPrefixOf other.toList = false) :
      String.ofList name ≠ other := by
    rintro rfl
    rw [String.toList_ofList, h] at hother
    nomatch hother
  unfold Scan.algorithmOf
  split
  · exact absurd ‹_› (hother (by decide))
  · exact absurd ‹_› (hother (by decide))
  · rfl

/-! ### Canonical form -/

theorem readKey?_eq_some_iff {data : Bytes} {algorithm : Text} {found : List Bytes} :
    readKey? data = some (algorithm, found) ↔
      ∃ r', Scan.key.Finds (.start data) (algorithm, found) r' := by
  constructor
  · intro h
    exact ⟨(Scan.key.run.run (.start data)).2, Prod.ext h rfl⟩
  · rintro ⟨r', h⟩
    rw [readKey?, h]

/-- The name in key data, as both readers find it. -/
theorem exists_name_of_readKey? {data : Bytes} {algorithm name : Text} {found : List Bytes}
    (h : readKey? data = some (algorithm, found))
    (hembedded : PublicKey.embeddedAlgorithm data = .ok name) :
    algorithm = Scan.algorithmOf name ∧ ∃ s r' : Reader,
      data = Wire.string name.utf8 ++ s.remaining ∧
        (Scan.fields algorithm).Finds s found r' ∧ r'.remaining = [] := by
  obtain ⟨r', hkey⟩ := readKey?_eq_some_iff.1 h
  obtain ⟨name', s, hlength, halgorithm, hname, hfields, hempty⟩ := Scan.finds_key.1 hkey
  have hdata : data = Wire.string name'.utf8 ++ s.remaining := hname.remaining
  have hshort : name'.utf8.length < UInt32.size :=
    Nat.lt_of_le_of_lt hlength (by decide : Scan.longestName < UInt32.size)
  have hnamed := PublicKey.embeddedAlgorithm_eq_ok_iff.2 ⟨hshort, s.remaining, hdata⟩
  obtain rfl : name' = name := Except.ok.inj (hnamed.symm.trans hembedded)
  exact ⟨halgorithm, s, r', hdata, hfields, hempty⟩

theorem eq_of_readKey? {data : Bytes} {algorithm keyType : Text} {found : List Bytes}
    (h : readKey? data = some (algorithm, found))
    (hembedded : PublicKey.embeddedAlgorithm data = .ok keyType)
    (htype : typeStart.isPrefixOf keyType = true) : algorithm = keyType := by
  rw [(exists_name_of_readKey? h hembedded).1, algorithmOf_of_typeStart htype]

/-- The canonical form of a key is the data it was found in, unless a point in it is overstated. -/
theorem canonicalData_eq {data : Bytes} {algorithm : Text} {found : List Bytes}
    (h : readKey? data = some (algorithm, found))
    (hembedded : PublicKey.embeddedAlgorithm data = .ok algorithm)
    (hpoint : ∀ octets, data = Wire.string algorithm.utf8 ++ octets → ¬Scan.Overstates octets) :
    canonicalData algorithm found = data := by
  obtain ⟨-, s, r', hdata, hfields, hempty⟩ := exists_name_of_readKey? h hembedded
  have hconsumes := (Scan.consumes_of_finds_fields hfields).resolve_right (hpoint _ hdata)
  rw [hconsumes.remaining, hempty, List.append_nil] at hdata
  exact hdata.symm

/-! ### Ed25519 keys -/

theorem finds_fields_ed25519 {point : Ed25519.KeyOctets} {r r' : Reader}
    (h : r.Consumes (Wire.string point.val) r') :
    Scan.Finds (Scan.fields Ed25519.algorithm) r [point.val] r' := by
  have hfields : Scan.fields Ed25519.algorithm = (do return [← Scan.edwardsPoint]) := rfl
  have hlength : point.val.length = Scan.edwardsLength := point.property
  rw [Wire.string, hlength] at h
  rw [hfields, Scan.finds_bind]
  exact ⟨point.val, r', Scan.finds_edwardsPoint.2 ⟨hlength, _, by decide, by decide, h⟩,
    Scan.finds_pure.2 ⟨rfl, rfl⟩⟩

/-- The key data that is written for a point is well-formed and canonical. -/
theorem readKey?_keyData (point : Ed25519.KeyOctets) :
    readKey? (Ed25519.keyData point) = some (Ed25519.algorithm, [point.val]) := by
  have hdata : Ed25519.keyData point =
      Wire.string Ed25519.algorithm.utf8 ++ Wire.string point.val := by
    simp [Ed25519.keyData, Wire.Item.encode]
  have hall := Reader.start_consumes_all (Ed25519.keyData point)
  rw [hdata] at hall ⊢
  obtain ⟨s, hname, hpoint⟩ := consumes_append.1 hall
  exact readKey?_eq_some_iff.2 ⟨_, Scan.finds_key.2 ⟨Ed25519.algorithm, s, by decide, by decide,
    hname, finds_fields_ed25519 hpoint, rfl⟩⟩

theorem embeddedAlgorithm_keyData (point : Ed25519.KeyOctets) :
    PublicKey.embeddedAlgorithm (Ed25519.keyData point) = .ok Ed25519.algorithm :=
  PublicKey.embeddedAlgorithm_eq_ok_iff.2 ⟨by decide, _, rfl⟩

/-- The point of the sample key. -/
def samplePoint : Ed25519.KeyOctets :=
  ⟨[0x9c, 0xe2, 0x1b, 0xf3, 0xd2, 0xe9, 0x64, 0xd1, 0x78, 0x61, 0x82, 0x42, 0x3b, 0x69, 0x32, 0x54,
    0xc3, 0x8c, 0xbd, 0x00, 0x47, 0xe1, 0x2b, 0x09, 0x19, 0x84, 0x3c, 0xa2, 0x28, 0x57, 0x19, 0xb1],
    rfl⟩

theorem encodeText_samplePoint :
    Base64.encodeText (Ed25519.keyData samplePoint) = sampleData := by
  decide +kernel

end SshKeys.AuthorizedKeys
