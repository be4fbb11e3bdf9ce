import SshKeys.Proofs.Rsa.Layout

/-!
Private keys that are cut short, and keys with more octets behind them.

Each read of a key is settled, so reading the key is (`settled_parse`). A cut
before the last integer ends leaves no layout to be found, and then running short
is the only error there can be. A cut behind it leaves the layout where it was.
-/

namespace SshKeys.Rsa.PrivateKeyInfo

open Der

variable {key : Components} {data : Bytes}

theorem settled_parse : Settled parse := by
  refine .bind (settled_headerAt 0 sequenceTag) fun outer => ?_
  refine .bind (settled_integerAt outer.start) fun version => ?_
  refine .bind (settled_headerAt version.next sequenceTag) fun algorithm => ?_
  refine .bind (settled_headerAt algorithm.stop octetStringTag) fun wrapper => ?_
  refine .bind (settled_headerAt wrapper.start sequenceTag) fun inner => ?_
  refine .bind (settled_integerAt inner.start) fun innerVersion => ?_
  refine .bind (settled_integerAt innerVersion.next) fun n => ?_
  refine .bind (settled_integerAt n.next) fun e => ?_
  refine .bind (settled_integerAt e.next) fun d => ?_
  refine .bind (settled_integerAt d.next) fun p => ?_
  refine .bind (settled_integerAt p.next) fun q => ?_
  refine .bind (settled_integerAt q.next) fun dp => ?_
  refine .bind (settled_integerAt dp.next) fun dq => ?_
  exact .bind (settled_integerAt dq.next) fun qi => .const _

namespace Layout

variable {l : Layout key} {count : Nat}

theorem parse_take_append (h : l.octets <+: data) (hcount : l.stop ≤ count) (more : Bytes) :
    parse (data.take count ++ more) = .ok key := by
  have htake : l.octets <+: data.take count :=
    List.prefix_take_iff.2 ⟨h, l.length_octets ▸ hcount⟩
  exact parse_eq_ok_iff_layout.2 ⟨l, htake.trans (List.prefix_append _ _)⟩

theorem parse_take_eq_truncated (h : l.octets <+: data) (hcount : count < l.stop) :
    ∃ offset, parse (data.take count) = .error (.truncated offset) := by
  rcases settled_parse.take data count with hshort | hsame
  · exact hshort
  · -- the cut key would have a layout of its own, but there is only one and it is longer
    rw [parse_eq_ok_iff_layout.2 ⟨l, h⟩] at hsame
    obtain ⟨l', hbegin⟩ := parse_eq_ok_iff_layout.1 hsame
    obtain rfl := unique h (hbegin.trans (List.take_prefix count data))
    have hlength := hbegin.length_le
    rw [length_octets, List.length_take] at hlength
    omega

end Layout

/-- A key is there as soon as its last integer is, and whatever comes after that. Any shorter part
of it is found to be cut short. An error of another kind is final. -/
theorem parse_cut (data : Bytes) :
    (∀ key, parse data = .ok key →
      ∃ l : Layout key, l.octets <+: data ∧ l.stop ≤ data.length ∧
        (∀ count, l.stop ≤ count → ∀ more, parse (data.take count ++ more) = .ok key) ∧
        ∀ count < l.stop, ∃ offset, parse (data.take count) = .error (.truncated offset)) ∧
      ∀ e, parse data = .error e → (∀ offset, e ≠ .truncated offset) →
        ∀ more, parse (data ++ more) = .error e := by
  constructor
  · intro key h
    obtain ⟨l, hbegin⟩ := parse_eq_ok_iff_layout.1 h
    exact ⟨l, hbegin, l.length_octets ▸ hbegin.length_le,
      fun _ hcount => Layout.parse_take_append hbegin hcount,
      fun _ => Layout.parse_take_eq_truncated hbegin⟩
  · intro e h he
    exact settled_parse.append_of_error h he

/-- A key with octets left over at its end, cut in the contents of its last integer, and cut behind
them to be continued otherwise. Behind a wrong tag the octets are of no account. -/
theorem parse_cut_small :
    parse smallInfo = .ok smallKey ∧
      (∃ offset, parse (smallInfo.take 53) = .error (.truncated offset)) ∧
      parse (smallInfo.take 54 ++ [1, 2]) = .ok smallKey ∧
      parse (0x31 :: smallInfo) = .error (.unexpectedTag 0 sequenceTag 0x31) ∧
      parse (0x31 :: smallInfo ++ [1, 2]) = .error (.unexpectedTag 0 sequenceTag 0x31) := by
  have hparse : parse smallInfo = .ok smallKey := by decide +kernel
  have hwrong : parse (0x31 :: smallInfo) = .error (.unexpectedTag 0 sequenceTag 0x31) := by
    decide +kernel
  obtain ⟨l, -, -, hbehind, hbefore⟩ := (parse_cut smallInfo).1 smallKey hparse
  have hstop : l.stop = 54 := by
    apply Nat.le_antisymm
    · by_contra hlt
      obtain ⟨offset, hshort⟩ := hbefore 54 (by omega)
      have hwhole : parse (smallInfo.take 54) = .ok smallKey := by decide +kernel
      rw [hwhole] at hshort
      nomatch hshort
    · by_contra hlt
      have hwhole := hbehind 53 (by omega) []
      have hshort : parse (smallInfo.take 53 ++ []) ≠ .ok smallKey := by decide +kernel
      exact hshort hwhole
  exact ⟨hparse, hbefore 53 (by omega), hbehind 54 (by omega) [1, 2], hwrong,
    (parse_cut (0x31 :: smallInfo)).2 _ hwrong (fun _ => nofun) [1, 2]⟩

end SshKeys.Rsa.PrivateKeyInfo
