import SshKeys.Proofs.Der.Extension
import SshKeys.Proofs.Rsa.PrivateKeyInfo

/-!
What the reader of private keys accepts, and what it does not look at.

A `Layout` is the octets that are walked through: a header for each container,
and the elements between and inside them. A key is accepted where the buffer
begins with its layout, and nothing else is asked (`parse_eq_ok_iff_layout`):
the lengths that the three containers declare may be any. No layout is the
beginning of another one, so a buffer has at most one.
-/

namespace SshKeys.Rsa.PrivateKeyInfo

open Der

variable {key : Components} {data : Bytes}

/-- The octets of a key one part after the other, the integers of the key last. Of the containers
around them there are only the headers here. -/
structure Layout (key : Components) where
  outer : Bytes
  /-- the length that the outer header declares -/
  outerLength : Nat
  version : Bytes
  algorithm : Bytes
  wrapper : Bytes
  wrapperLength : Nat
  inner : Bytes
  innerLength : Nat
  integers : Bytes
  isOuter : IsHeader sequenceTag outerLength outer
  isVersion : ∃ contents, IsElement integerTag contents version
  isAlgorithm : ∃ contents, IsElement sequenceTag contents algorithm
  isWrapper : IsHeader octetStringTag wrapperLength wrapper
  isInner : IsHeader sequenceTag innerLength inner
  areIntegers : ∃ innerVersion, AreIntegers (innerVersion :: key.numbers) integers

namespace Layout

/-- All octets that are looked at or passed over. -/
def octets (l : Layout key) : Bytes :=
  l.outer ++ (l.version ++ (l.algorithm ++ (l.wrapper ++ (l.inner ++ l.integers))))

/-- The offset after the AlgorithmIdentifier. -/
def algorithmStop (l : Layout key) : Nat :=
  l.outer.length + l.version.length + l.algorithm.length

/-- The offset after the last integer. -/
def stop (l : Layout key) : Nat :=
  l.algorithmStop + l.wrapper.length + l.inner.length + l.integers.length

theorem length_octets (l : Layout key) : l.octets.length = l.stop := by
  simp only [octets, stop, algorithmStop, List.length_append]
  omega

/-- The octets of a buffer can be laid out in one way. -/
theorem eq_of_append_eq {l l' : Layout key} {rest rest' : Bytes}
    (h : l.octets ++ rest = l'.octets ++ rest') : l = l' := by
  obtain ⟨outer, outerLength, version, algorithm, wrapper, wrapperLength, inner, innerLength,
    integers, houter, ⟨_, hversion⟩, ⟨_, halgorithm⟩, hwrapper, hinner, ⟨_, hintegers⟩⟩ := l
  obtain ⟨outer', outerLength', version', algorithm', wrapper', wrapperLength', inner',
    innerLength', integers', houter', ⟨_, hversion'⟩, ⟨_, halgorithm'⟩, hwrapper', hinner',
    ⟨_, hintegers'⟩⟩ := l'
  simp only [octets, List.append_assoc] at h
  obtain ⟨rfl, rfl, h⟩ := houter.eq houter' h
  obtain ⟨rfl, -, h⟩ := hversion.eq hversion' h
  obtain ⟨rfl, -, h⟩ := halgorithm.eq halgorithm' h
  obtain ⟨rfl, rfl, h⟩ := hwrapper.eq hwrapper' h
  obtain ⟨rfl, rfl, h⟩ := hinner.eq hinner' h
  obtain ⟨-, rfl, -⟩ := hintegers.eq hintegers' rfl h
  rfl

theorem unique {l l' : Layout key} (h : l.octets <+: data) (h' : l'.octets <+: data) :
    l = l' := by
  obtain ⟨rest, hrest⟩ := h
  obtain ⟨rest', hrest'⟩ := h'
  exact eq_of_append_eq (hrest.trans hrest'.symm)

end Layout

/-! ### What is accepted -/

/-- A key is accepted exactly where its layout is found at the beginning. -/
theorem parse_eq_ok_iff_layout : parse data = .ok key ↔ ∃ l : Layout key, l.octets <+: data := by
  rw [parse_eq_ok_iff]
  constructor
  · rintro ⟨outer, version, algorithm, wrapper, inner, innerVersion, houter, hversion, halgorithm,
      hwrapper, hinner, hreads⟩
    obtain ⟨outerHead, isOuter, hatOuter, houter⟩ := headerAt_eq_ok_iff_isHeader.1 houter
    obtain ⟨encodedVersion, isVersion, hatVersion, hversion⟩ := integerAt_eq_ok_iff.1 hversion
    obtain ⟨contents, encodedAlgorithm, isAlgorithm, hatAlgorithm, halgorithm⟩ :=
      isElement_of_headerAt_stop halgorithm hwrapper
    obtain ⟨wrapperHead, isWrapper, hatWrapper, hwrapper⟩ := headerAt_eq_ok_iff_isHeader.1 hwrapper
    obtain ⟨innerHead, isInner, hatInner, hinner⟩ := headerAt_eq_ok_iff_isHeader.1 hinner
    have hatEnd : At data inner.start [] := by
      rw [hinner]
      exact (at_append.1 (by rwa [List.append_nil])).2
    obtain ⟨integers, areIntegers, hatIntegers⟩ := hreads.areIntegers (at_iff.1 hatEnd).1
    refine ⟨⟨outerHead, _, encodedVersion, encodedAlgorithm, wrapperHead, _, innerHead, _,
      integers, isOuter, ⟨_, isVersion⟩, ⟨_, isAlgorithm⟩, isWrapper, isInner,
      ⟨_, areIntegers⟩⟩, at_zero.1 ?_⟩
    -- each part stands where the one before it ends
    rw [hinner] at hatIntegers
    rw [hwrapper] at hatInner hatIntegers
    rw [halgorithm] at hatWrapper hatInner hatIntegers
    rw [hversion] at hatAlgorithm hatWrapper hatInner hatIntegers
    rw [houter] at hatVersion hatAlgorithm hatWrapper hatInner hatIntegers
    exact at_append.2 ⟨hatOuter, at_append.2 ⟨hatVersion, at_append.2 ⟨hatAlgorithm,
      at_append.2 ⟨hatWrapper, at_append.2 ⟨hatInner, hatIntegers⟩⟩⟩⟩⟩
  · rintro ⟨l, hbegin⟩
    obtain ⟨_, isVersion⟩ := l.isVersion
    obtain ⟨_, isAlgorithm⟩ := l.isAlgorithm
    obtain ⟨_, areIntegers⟩ := l.areIntegers
    obtain ⟨hatOuter, hat⟩ := at_append.1 (at_zero.2 hbegin)
    obtain ⟨hatVersion, hat⟩ := at_append.1 hat
    obtain ⟨hatAlgorithm, hat⟩ := at_append.1 hat
    obtain ⟨algorithmStart, halgorithm, -, hstop⟩ := headerAt_of_isElement isAlgorithm hatAlgorithm
    rw [← hstop] at hat
    obtain ⟨hatWrapper, hat⟩ := at_append.1 hat
    obtain ⟨hatInner, hatIntegers⟩ := at_append.1 hat
    exact ⟨_, ⟨_, _⟩, _, _, _, _, headerAt_of_isHeader l.isOuter hatOuter,
      integerAt_eq_ok_iff.2 ⟨_, isVersion, hatVersion, rfl⟩, halgorithm,
      headerAt_of_isHeader l.isWrapper hatWrapper, headerAt_of_isHeader l.isInner hatInner,
      readsIntegers_of_areIntegers areIntegers hatIntegers⟩

end SshKeys.Rsa.PrivateKeyInfo
