import SshKeys.Proofs.Rsa.Layout

/-!
Honest nesting of private keys.

The reader goes from header to header and never compares two lengths, so it
accepts a key whatever its three containers declare. `parse_nesting` says which
of the accepted keys are nested as they claim to be: those where the buffer
begins with a PrivateKeyInfo. The octets behind the last integer decide it. In
an honest key they fall into what is unread inside each of the containers and
what comes after the outermost one.
-/

namespace SshKeys.Rsa.PrivateKeyInfo

open Der

variable {key : Components} {data encoded : Bytes}

namespace Layout

/-! ### Offsets that are declared -/

def outerStop (l : Layout key) : Nat :=
  l.outer.length + l.outerLength

def wrapperStop (l : Layout key) : Nat :=
  l.algorithmStop + l.wrapper.length + l.wrapperLength

def innerStop (l : Layout key) : Nat :=
  l.algorithmStop + l.wrapper.length + l.inner.length + l.innerLength

/-- Each part ends no later than the contents that the header of its container declares, and the
outermost contents no later than the buffer. That it begins inside them need not be said: the parts
stand behind the headers of their containers. -/
structure IsNested (l : Layout key) (data : Bytes) : Prop where
  outer : l.outerStop ≤ data.length
  algorithm : l.algorithmStop ≤ l.outerStop
  wrapper : l.wrapperStop ≤ l.outerStop
  inner : l.innerStop ≤ l.wrapperStop
  integers : l.stop ≤ l.innerStop

theorem IsNested.mono {l : Layout key} (h : l.IsNested encoded)
    (hbegin : encoded <+: data) : l.IsNested data :=
  { h with outer := h.outer.trans hbegin.length_le }

/-- Honest declarations leave room for what they declare, container by container. -/
theorem IsNested.exists_isPrivateKeyInfo {l : Layout key} (hbegin : l.octets <+: data)
    (h : l.IsNested data) : ∃ encoded, IsPrivateKeyInfo key encoded ∧ encoded <+: data := by
  obtain ⟨rest, rfl⟩ := hbegin
  obtain ⟨houter, -, hwrapper, hinner, hintegers⟩ := h
  obtain ⟨_, isVersion⟩ := l.isVersion
  obtain ⟨_, isAlgorithm⟩ := l.isAlgorithm
  obtain ⟨_, areIntegers⟩ := l.areIntegers
  simp only [outerStop, wrapperStop, innerStop, stop, algorithmStop, List.length_append,
    length_octets] at houter hwrapper hinner hintegers
  -- what is unread inside the innermost container, then inside the next one, and so on
  obtain ⟨unread, rest, rfl, hunread, isInner⟩ := l.isInner.exists_isElement l.integers rest
    (by omega) (by rw [List.length_append]; omega)
  rw [List.length_append] at houter
  obtain ⟨afterKey, rest, rfl, hafterKey, isWrapper⟩ := l.isWrapper.exists_isElement
    (l.inner ++ (l.integers ++ unread)) rest
    (by simp only [List.length_append]; omega) (by simp only [List.length_append]; omega)
  simp only [List.length_append] at houter hafterKey
  obtain ⟨afterWrapper, rest, rfl, -, isOuter⟩ := l.isOuter.exists_isElement
    (l.version ++ (l.algorithm ++ (l.wrapper ++ (l.inner ++ (l.integers ++ unread) ++ afterKey))))
    rest (by simp only [List.length_append]; omega) (by simp only [List.length_append]; omega)
  rw [List.append_assoc, List.append_assoc] at isOuter
  exact ⟨_, .intro isVersion isAlgorithm (.intro areIntegers isInner) isWrapper isOuter, rest,
    by simp [octets]⟩

end Layout

/-- The layout of a PrivateKeyInfo. -/
theorem IsPrivateKeyInfo.exists_isNested (h : IsPrivateKeyInfo key encoded) :
    ∃ l : Layout key, l.octets <+: encoded ∧ l.IsNested encoded := by
  obtain @⟨_, _, version, algorithm, _, _, _, afterKey, afterWrapper, isVersion, isAlgorithm,
    @⟨_, integers, unread, _, areIntegers, isInner⟩, isWrapper, isOuter⟩ := h
  obtain ⟨inner, hinner, rfl⟩ := isElement_iff.1 isInner
  obtain ⟨wrapper, hwrapper, rfl⟩ := isElement_iff.1 isWrapper
  obtain ⟨outer, houter, rfl⟩ := isElement_iff.1 isOuter
  refine ⟨⟨outer, _, version, algorithm, wrapper, _, inner, _, integers, houter, ⟨_, isVersion⟩,
    ⟨_, isAlgorithm⟩, hwrapper, hinner, ⟨_, areIntegers⟩⟩, ?_, ?_⟩
  · exact ⟨unread ++ (afterKey ++ afterWrapper), by simp [Layout.octets]⟩
  · constructor <;> simp only [Layout.outerStop, Layout.wrapperStop, Layout.innerStop,
      Layout.stop, Layout.algorithmStop, List.length_append] <;> omega

/-- A key is accepted wherever its octets stand one part after the other, whatever its containers
declare. Its parts lie inside the contents that are declared around them exactly if the buffer
begins with a PrivateKeyInfo. -/
theorem parse_nesting (key : Components) (data : Bytes) :
    (parse data = .ok key ↔ ∃ l : Layout key, l.octets <+: data) ∧
      ∀ l : Layout key, l.octets <+: data →
        (l.IsNested data ↔ ∃ encoded, IsPrivateKeyInfo key encoded ∧ encoded <+: data) := by
  refine ⟨parse_eq_ok_iff_layout, fun l hbegin => ⟨fun h => h.exists_isPrivateKeyInfo hbegin, ?_⟩⟩
  rintro ⟨encoded, hinfo, hencoded⟩
  obtain ⟨l', hbegin', hnested⟩ := hinfo.exists_isNested
  obtain rfl := Layout.unique hbegin (hbegin'.trans hencoded)
  exact hnested.mono hencoded

/-- Octets left over inside each of the containers, and behind them. -/
theorem parse_nesting_small :
    parse (smallInfo ++ [0xdd]) = .ok smallKey ∧
      ∃ l : Layout smallKey, l.octets <+: smallInfo ++ [0xdd] ∧
        l.IsNested (smallInfo ++ [0xdd]) := by
  have hparse : parse (smallInfo ++ [0xdd]) = .ok smallKey := by decide +kernel
  obtain ⟨haccepted, hnested⟩ := parse_nesting smallKey (smallInfo ++ [0xdd])
  obtain ⟨l, hbegin⟩ := haccepted.1 hparse
  exact ⟨hparse, l, hbegin,
    (hnested l hbegin).2 ⟨smallInfo, isPrivateKeyInfo_smallInfo, List.prefix_append _ _⟩⟩

def tinyKey : Components :=
  ⟨[1], [2], [3], [4], [5], [6], [7], [8]⟩

/-- `tinyKey` in containers the outermost of which declares 127 octets of contents. There are 49. -/
def overrunInfo : Bytes :=
  let integers := (([0] :: tinyKey.numbers).map (elementWith .short integerTag)).flatten
  sequenceTag :: 127 :: (elementWith .short integerTag [0] ++ (algorithmIdentifier ++
    elementWith .short octetStringTag (elementWith .short sequenceTag integers)))

/-- A key is accepted although the buffer ends before its contents are said to end. -/
theorem exists_parse_not_isNested :
    parse overrunInfo = .ok tinyKey ∧
      ∀ l : Layout tinyKey, l.octets <+: overrunInfo → ¬l.IsNested overrunInfo := by
  refine ⟨by decide +kernel, fun l hbegin hnested => ?_⟩
  have hread := headerAt_of_isHeader l.isOuter (at_append.1 (at_zero.2 hbegin)).1
  have hdeclared : headerAt overrunInfo 0 sequenceTag = .ok ⟨2, 127⟩ := by decide +kernel
  have hlength : overrunInfo.length = 51 := by decide +kernel
  obtain ⟨hstart, hcount⟩ := Header.mk.inj (Except.ok.inj (hread.symm.trans hdeclared))
  have houter := hnested.outer
  rw [Layout.outerStop, hlength, hcount] at houter
  omega

end SshKeys.Rsa.PrivateKeyInfo
