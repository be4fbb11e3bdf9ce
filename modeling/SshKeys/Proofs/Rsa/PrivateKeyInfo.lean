import SshKeys.Proofs.Der.Reading
import SshKeys.Rsa.PrivateKeyInfo

/-!
Every PrivateKeyInfo is read, whatever its lengths are written like.

The grammar is the one that the reader walks through, with room for octets
after the last element at each level.
-/

namespace SshKeys.Rsa

/-- The numbers of a key in the order in which they are stored. -/
def Components.numbers (key : Components) : List Bytes :=
  [key.n, key.e, key.d, key.p, key.q, key.dp, key.dq, key.qi]

namespace PrivateKeyInfo

open Der

variable {key : Components} {data : Bytes}

/-- The octets of an RSAPrivateKey: a version and the numbers of the key, and what follows them. -/
inductive IsRsaPrivateKey (key : Components) : Bytes → Prop
  | intro {version integers unread encoded : Bytes}
      (hintegers : AreIntegers (version :: key.numbers) integers)
      (h : IsElement sequenceTag (integers ++ unread) encoded) : IsRsaPrivateKey key encoded

/-- The octets of a PrivateKeyInfo around an RSAPrivateKey. -/
inductive IsPrivateKeyInfo (key : Components) : Bytes → Prop
  | intro {version algorithm encodedVersion encodedAlgorithm inner wrapper encoded : Bytes}
      {afterKey afterWrapper : Bytes}
      (hversion : IsElement integerTag version encodedVersion)
      (halgorithm : IsElement sequenceTag algorithm encodedAlgorithm)
      (hinner : IsRsaPrivateKey key inner)
      (hwrapper : IsElement octetStringTag (inner ++ afterKey) wrapper)
      (h : IsElement sequenceTag
        (encodedVersion ++ (encodedAlgorithm ++ (wrapper ++ afterWrapper))) encoded) :
      IsPrivateKeyInfo key encoded

/-- The reads that a key is made of, each at the offset where the one before it leaves off. -/
theorem parse_eq_ok_iff :
    parse data = .ok key ↔
      ∃ outer version algorithm wrapper inner innerVersion,
        headerAt data 0 sequenceTag = .ok outer ∧
        integerAt data outer.start = .ok version ∧
        headerAt data version.next sequenceTag = .ok algorithm ∧
        headerAt data algorithm.stop octetStringTag = .ok wrapper ∧
        headerAt data wrapper.start sequenceTag = .ok inner ∧
        ReadsIntegers data inner.start (innerVersion :: key.numbers) := by
  constructor
  · intro h
    unfold parse at h
    obtain ⟨outer, houter, h⟩ := bind_eq_ok_iff.1 h
    obtain ⟨version, hversion, h⟩ := bind_eq_ok_iff.1 h
    obtain ⟨algorithm, halgorithm, h⟩ := bind_eq_ok_iff.1 h
    obtain ⟨wrapper, hwrapper, h⟩ := bind_eq_ok_iff.1 h
    obtain ⟨inner, hinner, h⟩ := bind_eq_ok_iff.1 h
    obtain ⟨innerVersion, hinnerVersion, h⟩ := bind_eq_ok_iff.1 h
    obtain ⟨n, hn, h⟩ := bind_eq_ok_iff.1 h
    obtain ⟨e, he, h⟩ := bind_eq_ok_iff.1 h
    obtain ⟨d, hd, h⟩ := bind_eq_ok_iff.1 h
    obtain ⟨p, hp, h⟩ := bind_eq_ok_iff.1 h
    obtain ⟨q, hq, h⟩ := bind_eq_ok_iff.1 h
    obtain ⟨dp, hdp, h⟩ := bind_eq_ok_iff.1 h
    obtain ⟨dq, hdq, h⟩ := bind_eq_ok_iff.1 h
    obtain ⟨qi, hqi, h⟩ := bind_eq_ok_iff.1 h
    obtain rfl := Except.ok.inj h
    refine ⟨outer, version, algorithm, wrapper, inner, innerVersion.value, houter, hversion,
      halgorithm, hwrapper, hinner, ?_⟩
    exact .cons hinnerVersion (.cons hn (.cons he (.cons hd (.cons hp (.cons hq (.cons hdp
      (.cons hdq (.cons hqi .nil))))))))
  · rintro ⟨outer, version, algorithm, wrapper, inner, innerVersion, houter, hversion, halgorithm,
      hwrapper, hinner, hreads⟩
    obtain ⟨n, e, d, p, q, dp, dq, qi⟩ := key
    obtain _ | ⟨hinnerVersion, _ | ⟨hn, _ | ⟨he, _ | ⟨hd, _ | ⟨hp, _ | ⟨hq, _ | ⟨hdp, _ | ⟨hdq,
      _ | ⟨hqi, -⟩⟩⟩⟩⟩⟩⟩⟩⟩ := hreads
    simp only [parse, houter, hversion, halgorithm, hwrapper, hinner, hinnerVersion, hn, he, hd,
      hp, hq, hdp, hdq, hqi, ok_bind]
    rfl

/-- Any octets may follow, at the end as after the elements inside. -/
theorem parse_of_isPrivateKeyInfo (h : IsPrivateKeyInfo key data) (unread : Bytes) :
    parse (data ++ unread) = .ok key := by
  obtain ⟨hversion, halgorithm, ⟨hintegers, hinner⟩, hwrapper, houter⟩ := h
  have hat : At (data ++ unread) 0 data := ⟨[], unread, rfl, rfl⟩
  obtain ⟨outer, houterRead, hat, -⟩ := headerAt_of_isElement houter hat
  obtain ⟨hversionAt, hat⟩ := at_append.1 hat
  have hversionRead := integerAt_eq_ok_iff (i := ⟨_, _⟩).2 ⟨_, hversion, hversionAt, rfl⟩
  obtain ⟨halgorithmAt, hat⟩ := at_append.1 hat
  obtain ⟨algorithm, halgorithmRead, -, hstop⟩ := headerAt_of_isElement halgorithm halgorithmAt
  obtain ⟨hwrapperAt, -⟩ := at_append.1 hat
  rw [← hstop] at hwrapperAt
  obtain ⟨wrapper, hwrapperRead, hat, -⟩ := headerAt_of_isElement hwrapper hwrapperAt
  obtain ⟨hinnerAt, -⟩ := at_append.1 hat
  obtain ⟨inner, hinnerRead, hat, -⟩ := headerAt_of_isElement hinner hinnerAt
  obtain ⟨hintegersAt, -⟩ := at_append.1 hat
  have hreads := readsIntegers_of_areIntegers hintegers hintegersAt
  exact parse_eq_ok_iff.2 ⟨_, _, _, _, _, _, houterRead, hversionRead, halgorithmRead,
    hwrapperRead, hinnerRead, hreads⟩

/-- A key with eight small numbers, one of them empty. -/
def smallKey : Components :=
  ⟨[0, 200], [1, 0, 1], [3], [], [0, 0, 5], [6], [7], [8]⟩

/-- The integers of `smallKey`, the first two with lengths longer than they need be. -/
def smallIntegers : Bytes :=
  elementWith (.long 4) integerTag [0] ++ (elementWith (.long 1) integerTag [0, 200] ++
    ([[1, 0, 1], [3], [], [0, 0, 5], [6], [7], [8]].map (elementWith .short integerTag)).flatten)

/-- `smallKey` in a PrivateKeyInfo, with octets left over inside each of the elements around it. -/
def smallInfo : Bytes :=
  elementWith (.long 2) sequenceTag
    (elementWith .short integerTag [] ++ (elementWith (.long 3) sequenceTag [0x06, 0x00] ++
      (elementWith .short octetStringTag
        (elementWith (.long 1) sequenceTag (smallIntegers ++ [0xaa]) ++ [0xbb]) ++ [0xcc])))

theorem isPrivateKeyInfo_smallInfo : IsPrivateKeyInfo smallKey smallInfo := by
  have hintegers : AreIntegers ([0] :: smallKey.numbers) smallIntegers := by
    refine .cons (isElement_long (by decide) (by decide) (by decide)) ?_
    refine .cons (isElement_long (by decide) (by decide) (by decide)) ?_
    exact areIntegers_short (by decide)
  have hinner : IsRsaPrivateKey smallKey
      (elementWith (.long 1) sequenceTag (smallIntegers ++ [0xaa])) :=
    .intro hintegers (isElement_long (by decide) (by decide) (by decide))
  exact .intro (isElement_short (by decide)) (isElement_long (by decide) (by decide) (by decide))
    hinner (isElement_short (by decide)) (isElement_long (by decide) (by decide) (by decide))

theorem parse_of_isPrivateKeyInfo_small :
    IsPrivateKeyInfo smallKey smallInfo ∧ parse (smallInfo ++ [0xdd]) = .ok smallKey :=
  ⟨isPrivateKeyInfo_smallInfo, parse_of_isPrivateKeyInfo isPrivateKeyInfo_smallInfo [0xdd]⟩

end PrivateKeyInfo

end SshKeys.Rsa
