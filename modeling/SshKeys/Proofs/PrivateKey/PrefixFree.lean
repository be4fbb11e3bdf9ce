import SshKeys.Proofs.PrivateKey.RoundTrip
import SshKeys.Proofs.Wire.Extension

/-!
No container of a private key is the beginning of another one.

The decoder reads items up to the private section and then looks whether
anything is left (`TakesAll`). With more octets it gets as far as that look, and
with fewer it runs short before: there is nothing else that it could do, because
every item that it finds in the shorter octets it also finds in the longer ones.
-/

namespace SshKeys.PrivateKey

open Wire Wire.Reader

/-- The octets run out before an item ends. -/
def IsShort (e : KeyError) : Prop :=
  ∃ needed available, e = .wire (.truncated needed available)

namespace Decoder

variable {α β : Type}

theorem settled_item {x : Read α} (h : Settled Error.IsShort x) : Settled IsShort (item x) := by
  intro r more
  show (∃ e, IsShort e ∧ (x.run.run r).1.mapError KeyError.wire = .error e) ∨
    ((x.run.run (r.extend more)).1.mapError KeyError.wire, (x.run.run (r.extend more)).2) =
      ((x.run.run r).1.mapError KeyError.wire, (x.run.run r).2.extend more)
  rcases h r more with ⟨_, ⟨needed, available, rfl⟩, hshort⟩ | hsame
  · rw [hshort]
    exact .inl ⟨_, ⟨needed, available, rfl⟩, rfl⟩
  · rw [hsame]
    exact .inr rfl

/-- The decoder succeeds only at the end of its octets: with more of them it complains about the
others, and with fewer it runs short. -/
def TakesAll (x : Decoder α) : Prop :=
  ∀ r more, more ≠ [] →
    ((∃ a, (x.run.run r).1 = .ok a) →
      (x.run.run (r.extend more)).1 = .error (.invalidPrivateKey .trailingData)) ∧
    ((∃ a, (x.run.run (r.extend more)).1 = .ok a) → ∃ e, IsShort e ∧ (x.run.run r).1 = .error e)

namespace TakesAll

variable {x : Decoder α} {f : α → Decoder β}

theorem bind (h : Settled IsShort x) (hf : ∀ a, TakesAll (f a)) : TakesAll (x >>= f) := by
  intro r more hmore
  rw [Read.run_bind, Read.run_bind]
  rcases h r more with ⟨e, he, hshort⟩ | hsame
  · rcases hx : x.run.run r with ⟨e' | a, r'⟩
    · rw [hx] at hshort
      obtain rfl := Except.error.inj hshort
      exact ⟨nofun, fun _ => ⟨e', he, rfl⟩⟩
    · rw [hx] at hshort
      nomatch hshort
  · rw [hsame]
    rcases x.run.run r with ⟨e | a, r'⟩
    · exact ⟨nofun, nofun⟩
    · exact hf a r' more hmore

theorem refuseIf {c : Prop} [Decidable c] (fault : PrivateKeyFault) (h : TakesAll x) :
    TakesAll (if c then do let _ ← refuse (α := Unit) fault; x else x) := by
  split
  · exact bind (.throw _) fun _ => h
  · exact h

/-- The look at what is left. -/
theorem refuseTrailing (x : Decoder α) :
    TakesAll (do
      unless (← get).isEmpty do
        refuse .trailingData
      x) := by
  intro r more hmore
  have hrun : ((do
      unless (← get).isEmpty do
        refuse .trailingData
      x : Decoder α).run.run (r.extend more)).1 = .error (.invalidPrivateKey .trailingData) := by
    show ((if (r.extend more).isEmpty then x else do
      let _ ← refuse (α := Unit) .trailingData; x).run.run (r.extend more)).1 = _
    rw [isEmpty_extend r hmore]
    rfl
  rw [hrun]
  exact ⟨fun _ => rfl, nofun⟩

end TakesAll

theorem takesAll_body : TakesAll body := by
  refine .bind (settled_item settled_text) fun cipher => ?_
  refine .bind (settled_item settled_text) fun kdf => ?_
  refine .bind (settled_item settled_bytes) fun _ => .refuseIf _ ?_
  refine .bind (settled_item settled_word) fun count => .refuseIf _ ?_
  refine .bind (settled_item settled_bytes) fun publicData => ?_
  exact .bind (settled_item settled_bytes) fun sealed => .refuseTrailing _

end Decoder

/-! ### Containers -/

variable {data : Bytes} {key : PrivateKey}

theorem ofContainer_magic_append (octets : Bytes) :
    ofContainer (magic ++ octets) = (Decoder.body.run.run (.start octets)).1 := by
  rw [ofContainer, if_pos (List.isPrefixOf_iff_prefix.2 (List.prefix_append magic octets)),
    List.drop_left]

theorem exists_of_ofContainer (h : ofContainer data = .ok key) :
    ∃ octets, data = magic ++ octets ∧ (Decoder.body.run.run (.start octets)).1 = .ok key := by
  have hmagic : magic.isPrefixOf data = true := by
    unfold ofContainer at h
    split at h
    · assumption
    · nomatch h
  obtain ⟨octets, rfl⟩ := List.isPrefixOf_iff_prefix.1 hmagic
  rw [ofContainer_magic_append] at h
  exact ⟨octets, rfl, h⟩

theorem ofContainer_append (h : ofContainer data = .ok key) {more : Bytes} (hmore : more ≠ []) :
    ofContainer (data ++ more) = .error (.invalidPrivateKey .trailingData) := by
  obtain ⟨octets, rfl, hbody⟩ := exists_of_ofContainer h
  rw [List.append_assoc, ofContainer_magic_append, start_append]
  exact (Decoder.takesAll_body _ more hmore).1 ⟨key, hbody⟩

theorem ofContainer_take_of_lt {count : Nat} (hcount : count < magic.length) (data : Bytes) :
    ofContainer (data.take count) = .error (.invalidPrivateKey .badMagic) := by
  rw [ofContainer, if_neg]
  intro hmagic
  have hlength := (List.isPrefixOf_iff_prefix.1 hmagic).length_le
  rw [List.length_take] at hlength
  omega

theorem ofContainer_take (h : ofContainer data = .ok key) {count : Nat}
    (hmagic : magic.length ≤ count) (hcount : count < data.length) :
    ∃ e, IsShort e ∧ ofContainer (data.take count) = .error e := by
  obtain ⟨octets, rfl, hbody⟩ := exists_of_ofContainer h
  rw [List.length_append] at hcount
  have hmore : octets.drop (count - magic.length) ≠ [] := by
    rw [ne_eq, List.drop_eq_nil_iff]
    omega
  rw [List.take_append, List.take_of_length_le hmagic, ofContainer_magic_append]
  refine (Decoder.takesAll_body _ _ hmore).2 ⟨key, ?_⟩
  rw [← start_append, List.take_append_drop]
  exact hbody

/-- A container that is accepted is refused with any octets missing at its end, and with any octets
added. -/
theorem decode_wrap_of_ok (h : decode (Armor.wrap data) = .ok key) :
    (∀ count < magic.length,
      decode (Armor.wrap (data.take count)) = .error (.invalidPrivateKey .badMagic)) ∧
    (∀ count, magic.length ≤ count → count < data.length →
      ∃ e, IsShort e ∧ decode (Armor.wrap (data.take count)) = .error e) ∧
    ∀ more ≠ [],
      decode (Armor.wrap (data ++ more)) = .error (.invalidPrivateKey .trailingData) := by
  have hdecode (octets : Bytes) : decode (Armor.wrap octets) = ofContainer octets := by
    rw [decode, Armor.unwrap_wrap, ok_bind]
  simp only [hdecode] at h ⊢
  exact ⟨fun _ hcount => ofContainer_take_of_lt hcount data,
    fun _ hmagic hcount => ofContainer_take h hmagic hcount,
    fun _ hmore => ofContainer_append h hmore⟩

/-- An Ed25519 key without octets, cut in its magic and in its padding, and with one octet added. -/
theorem decode_wrap_of_ok_empty :
    let data := container [] [] (pad (checkedSection 7 ed25519Type [[], []] ['k']))
    (∃ key, decode (Armor.wrap data) = .ok key) ∧
      decode (Armor.wrap (data.take 3)) = .error (.invalidPrivateKey .badMagic) ∧
      (∃ e, IsShort e ∧ decode (Armor.wrap (data.take 86)) = .error e) ∧
      decode (Armor.wrap (data ++ [5])) = .error (.invalidPrivateKey .trailingData) := by
  intro data
  have hdecode : decode (Armor.wrap data) = .ok (written [] 7 (.ed25519 [] []) ['k']) :=
    decode_armored 7 (.ed25519 [] []) ['k'] (by decide) (by decide +kernel)
  have hmagic : magic.length = 15 := by decide +kernel
  have hlength : data.length = 87 := by decide +kernel
  obtain ⟨hmagicCut, hcut, hlonger⟩ := decode_wrap_of_ok hdecode
  exact ⟨⟨_, hdecode⟩, hmagicCut 3 (by omega), hcut 86 (by omega) (by omega),
    hlonger [5] (by decide)⟩

end SshKeys.PrivateKey
