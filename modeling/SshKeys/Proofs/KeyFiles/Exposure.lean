import Mathlib.Data.List.Infix
import SshKeys.Proofs.KeyFiles.Saving

/-!
Who can read a private key while it is written.

A key file is opened, written piece by piece and given its mode at the end, and
the states in between are there for others to see. A file that is made for the
key is closed from the first of them on. A file that was there before has its
old mode until the last, so the key is exposed in it exactly if the old file
was open to others.
-/

namespace SshKeys

namespace FileSystem

variable {fs fs' : FileSystem}

theorem trace_cons_of_ok {a : Action} {more : List Action} (h : fs.apply a = .ok fs') :
    fs.trace (a :: more) = fs' :: fs'.trace more := by
  rw [trace, h]

end FileSystem

namespace KeyFiles

open FileSystem

variable {fs secured : FileSystem} {directory path : Text} {pair : KeyPair} {l : Location}

/-! ### Files written in pieces -/

/-- The steps that write a key file whose contents are handed over in any number of pieces. -/
def pieceSteps (path : Text) (pieces : List Bytes) (mode : Mode) : List Action :=
  .openTruncated path mode :: (pieces.map (.append path) ++ [.setMode path mode])

example (path : Text) (contents : Bytes) (mode : Mode) :
    writeSteps path contents mode = pieceSteps path [contents] mode :=
  rfl

/-- The mode of a file once it has been opened to be written. -/
def openedMode (fs : FileSystem) (l : Location) (mode : Mode) : Mode :=
  match fs.find? l with
  | some node => node.mode
  | none => mode &&& ~~~fs.umask

theorem openTruncated_of_writable (h : fs.Writable path) (mode : Mode) :
    fs.openTruncated path mode =
      .ok (fs.put (fs.place path) (.file (openedMode fs (fs.place path) mode) [])) := by
  rw [openTruncated, h.locate, ok_bind, openedMode]
  rcases hfind : fs.find? (fs.place path) with _ | ⟨old, contents⟩ | old
  · rfl
  · rfl
  · exact absurd ⟨old, hfind⟩ h.free

/-- From the opened file on, each state has some first pieces in it, up to the one with its mode. -/
theorem trace_pieces (h : fs.Writable path) (opened mode : Mode) (part : Bytes)
    (pieces : List Bytes) (more : List Action) :
    fs.put (fs.place path) (.file opened part) ::
        (fs.put (fs.place path) (.file opened part)).trace
          (pieces.map (.append path) ++ .setMode path mode :: more) =
      pieces.inits.map
          (fun first => fs.put (fs.place path) (.file opened (part ++ first.flatten))) ++
        fs.put (fs.place path) (.file mode (part ++ pieces.flatten)) ::
          (fs.put (fs.place path) (.file mode (part ++ pieces.flatten))).trace more := by
  have hlocate (node : Node) : (fs.put (fs.place path) node).locate path = .ok (fs.place path) :=
    (grows_put_file h.free node).locate_eq h.locate
  induction pieces generalizing part with
  | nil =>
      have hset : (fs.put (fs.place path) (.file opened part)).apply (.setMode path mode) =
          .ok (fs.put (fs.place path) (.file mode part)) := by
        rw [FileSystem.apply, setMode_of_locate (hlocate _) (find?_put_self ..), put_put]
        rfl
      rw [List.map_nil, List.nil_append, trace_cons_of_ok hset]
      simp
  | cons piece pieces ih =>
      have happend : (fs.put (fs.place path) (.file opened part)).apply (.append path piece) =
          .ok (fs.put (fs.place path) (.file opened (part ++ piece))) := by
        rw [FileSystem.apply, append_of_locate (hlocate _) (find?_put_self ..), put_put]
      rw [List.map_cons, List.cons_append, trace_cons_of_ok happend, ih]
      simp [List.append_assoc, Function.comp_def]

theorem trace_pieceSteps (h : fs.Writable path) (pieces : List Bytes) (mode : Mode)
    (more : List Action) :
    fs.trace (pieceSteps path pieces mode ++ more) =
      pieces.inits.map (fun first => fs.put (fs.place path)
          (.file (openedMode fs (fs.place path) mode) first.flatten)) ++
        fs.put (fs.place path) (.file mode pieces.flatten) ::
          (fs.put (fs.place path) (.file mode pieces.flatten)).trace more := by
  have hopen : fs.apply (.openTruncated path mode) = .ok _ := openTruncated_of_writable h mode
  rw [pieceSteps, List.cons_append, List.append_assoc, List.singleton_append,
    trace_cons_of_ok hopen, trace_pieces h]
  rfl

theorem getLast?_trace_pieceSteps (h : fs.Writable path) (pieces : List Bytes) (mode : Mode) :
    (fs.trace (pieceSteps path pieces mode)).getLast? =
      some (fs.put (fs.place path) (.file mode pieces.flatten)) := by
  rw [← List.append_nil (pieceSteps path pieces mode), trace_pieceSteps h, trace,
    List.getLast?_concat]

theorem trace_pieceSteps_of_not_writable (h : ¬fs.Writable path) (pieces : List Bytes)
    (mode : Mode) : fs.trace (pieceSteps path pieces mode) = [] := by
  rw [pieceSteps, trace, FileSystem.apply]
  rcases hopen : fs.openTruncated path mode with fault | opened
  · rfl
  · obtain ⟨l, hlocate, hfree⟩ := locate_of_openTruncated hopen
    obtain rfl := (locate_eq_ok_iff.1 hlocate).2.2
    exact absurd ⟨hlocate, hfree⟩ h

/-! ### Files that others can read -/

/-- The permission bits of everyone but the owner. -/
def othersBits : Mode := 0o077

/-- A first part of the key, not empty, is in a file on which others have some permission. -/
def Exposed (fs : FileSystem) (l : Location) (key : Bytes) : Prop :=
  ∃ mode part, fs.find? l = some (.file mode part) ∧ part ≠ [] ∧ part <+: key ∧
    mode &&& othersBits ≠ 0

variable {key part : Bytes} {mode : Mode}

theorem exposed_put_self :
    Exposed (fs.put l (.file mode part)) l key ↔
      part ≠ [] ∧ part <+: key ∧ mode &&& othersBits ≠ 0 := by
  simp [Exposed]

theorem exposed_put_of_ne {l' : Location} (h : l ≠ l') (node : Node) :
    Exposed (fs.put l' node) l key ↔ Exposed fs l key := by
  rw [Exposed, find?_put, if_neg h, Exposed]

/-- What is written elsewhere exposes nothing here. -/
theorem exposed_iff_of_mem_trace {pieces : List Bytes} {state : FileSystem} (h : l ≠ fs.place path)
    (hstate : state ∈ fs.trace (pieceSteps path pieces mode)) :
    Exposed state l key ↔ Exposed fs l key := by
  by_cases hwritable : fs.Writable path
  · rw [← List.append_nil (pieceSteps path pieces mode), trace_pieceSteps hwritable] at hstate
    simp only [trace, List.mem_append, List.mem_map, List.mem_singleton] at hstate
    rcases hstate with ⟨first, -, rfl⟩ | rfl <;> exact exposed_put_of_ne h _
  · rw [trace_pieceSteps_of_not_writable hwritable] at hstate
    nomatch hstate

/-- A new file is closed whatever the umask takes from its mode. -/
theorem openedMode_iff (h : fs.Writable path) :
    openedMode fs (fs.place path) privateKeyMode &&& othersBits ≠ 0 ↔
      ∃ mode old, fs.find? (fs.place path) = some (.file mode old) ∧
        mode &&& othersBits ≠ 0 := by
  rw [openedMode]
  rcases hfind : fs.find? (fs.place path) with _ | ⟨old, contents⟩ | old
  · have hclosed : privateKeyMode &&& ~~~fs.umask &&& othersBits = 0 := by
      rw [BitVec.and_assoc, BitVec.and_comm (~~~fs.umask), ← BitVec.and_assoc,
        show privateKeyMode &&& othersBits = 0 by decide]
      exact BitVec.zero_and
    simp [hclosed]
  · simp [Node.mode]
  · exact absurd ⟨old, hfind⟩ h.free

/-- A file is exposed while it is written if it is opened with permissions for others, and there is
something to write. -/
theorem exposed_pieces_iff {pieces : List Bytes} {opened : Mode} :
    (∃ first ∈ pieces.inits, Exposed (fs.put l (.file opened first.flatten)) l pieces.flatten) ↔
      pieces.flatten ≠ [] ∧ opened &&& othersBits ≠ 0 := by
  simp only [exposed_put_self]
  constructor
  · rintro ⟨first, -, hpart, hprefix, hopened⟩
    refine ⟨?_, hopened⟩
    intro h
    rw [h] at hprefix
    exact hpart (List.prefix_nil.1 hprefix)
  · rintro ⟨hkey, hopened⟩
    have hmem : pieces ∈ pieces.inits := (List.mem_inits _ _).2 (List.prefix_refl pieces)
    exact ⟨pieces, hmem, hkey, List.prefix_refl _, hopened⟩

/-! ### Saving a pair -/

/-- All that a save does once the directory is secured, with the contents of the files in pieces. -/
def savingSteps (directory : Text) (keyType : KeyType) (privatePieces publicPieces : List Bytes) :
    List Action :=
  pieceSteps (privateKeyPath directory keyType) privatePieces privateKeyMode ++
    pieceSteps (publicPathOf (privateKeyPath directory keyType)) publicPieces publicKeyMode

/-- A save that comes to open the private file: nothing speaks against it, the directory has been
secured, and the file can be written. -/
structure Opens (directory : Text) (pair : KeyPair) (overwrite : Bool)
    (fs secured : FileSystem) : Prop where
  allowed : overwrite = true ∨ firstTaken fs (pairPaths directory pair.keyType) = none
  secures : (secureDirectory directory).run.run fs = (.ok (), secured)
  writable : secured.Writable (privateKeyPath directory pair.keyType)

namespace Opens

variable {overwrite : Bool}

theorem run_save (h : Opens directory pair overwrite fs secured) :
    (save directory pair overwrite).run.run fs = (writeFiles directory pair).run.run secured := by
  have hwrite : (writePair directory pair).run.run fs =
      (writeFiles directory pair).run.run secured :=
    Change.run_bind_of_ok h.secures
  rw [run_save_eq, ← hwrite]
  rcases h.allowed with rfl | hfree
  · rfl
  · rw [pairPaths] at hfree
    rw [hfree]
    split <;> rfl

theorem place_eq (h : Opens directory pair overwrite fs secured) :
    secured.place path = fs.place path := by
  have hmost := securesAtMost_secureDirectory directory fs
  rw [h.secures] at hmost
  exact hmost.grows.place_eq path

/-- Securing the directory leaves the private file as it is. -/
theorem find?_eq (h : Opens directory pair overwrite fs secured) :
    secured.find? (fs.place (privateKeyPath directory pair.keyType)) =
      fs.find? (fs.place (privateKeyPath directory pair.keyType)) := by
  have hmost := securesAtMost_secureDirectory directory fs
  rw [h.secures] at hmost
  refine hmost.changesOnly.find?_eq ?_ ?_
  · rw [place_privateKeyPath, List.mem_singleton]
    exact List.cons_ne_self _ _
  · rw [← h.place_eq]
    exact h.writable.free

end Opens

section

variable {privatePieces : List Bytes} (publicPieces : List Bytes)
  (h : fs.Writable (privateKeyPath directory pair.keyType))
  (hprivate : privatePieces.flatten = pair.privateKey.utf8)

include h hprivate in
theorem trace_savingSteps :
    fs.trace (savingSteps directory pair.keyType privatePieces publicPieces) =
      privatePieces.inits.map
          (fun first => fs.put (fs.place (privateKeyPath directory pair.keyType))
            (.file (openedMode fs (fs.place (privateKeyPath directory pair.keyType))
              privateKeyMode) first.flatten)) ++
        withPrivate directory pair fs :: (withPrivate directory pair fs).trace
          (pieceSteps (publicPathOf (privateKeyPath directory pair.keyType)) publicPieces
            publicKeyMode) := by
  rw [savingSteps, trace_pieceSteps h, hprivate]
  rfl

include h hprivate in
theorem getLast?_trace_savingSteps (hpublic : publicPieces.flatten = (publicKeyFile pair).utf8) :
    (fs.trace (savingSteps directory pair.keyType privatePieces publicPieces)).getLast? =
      some ((writeFiles directory pair).run.run fs).2 := by
  obtain ⟨-, hone, hboth⟩ := run_writeFiles directory pair fs
  rw [trace_savingSteps publicPieces h hprivate, List.getLast?_append_cons, List.getLast?_cons]
  by_cases hroom : fs.Writable (publicPathOf (privateKeyPath directory pair.keyType))
  · rw [hboth h hroom, getLast?_trace_pieceSteps ((writable_withPrivate_iff h).2 hroom), hpublic,
      (grows_withPrivate h).place_eq]
    rfl
  · obtain ⟨e, hrun⟩ := hone h hroom
    rw [hrun, trace_pieceSteps_of_not_writable (mt (writable_withPrivate_iff h).1 hroom)]
    rfl

include h hprivate in
/-- The key can only be exposed before the private file has its mode. -/
theorem exists_exposed_iff :
    (∃ state ∈ fs.trace (savingSteps directory pair.keyType privatePieces publicPieces),
        Exposed state (fs.place (privateKeyPath directory pair.keyType)) pair.privateKey.utf8) ↔
      pair.privateKey.utf8 ≠ [] ∧
        ∃ mode old, fs.find? (fs.place (privateKeyPath directory pair.keyType)) =
          some (.file mode old) ∧ mode &&& othersBits ≠ 0 := by
  have hclosed : ¬Exposed (withPrivate directory pair fs)
      (fs.place (privateKeyPath directory pair.keyType)) pair.privateKey.utf8 :=
    fun hexposed => absurd (exposed_put_self.1 hexposed).2.2 (by decide)
  have hne : fs.place (privateKeyPath directory pair.keyType) ≠
      (withPrivate directory pair fs).place
        (publicPathOf (privateKeyPath directory pair.keyType)) := by
    rw [(grows_withPrivate h).place_eq]
    exact (place_publicPathOf_ne fs directory pair.keyType).symm
  rw [← openedMode_iff h, ← hprivate, ← exposed_pieces_iff, hprivate,
    trace_savingSteps publicPieces h hprivate]
  simp only [List.mem_append, List.mem_map, List.mem_cons]
  constructor
  · rintro ⟨state, ⟨first, hfirst, rfl⟩ | rfl | hstate, hexposed⟩
    · exact ⟨first, hfirst, hexposed⟩
    · exact absurd hexposed hclosed
    · exact absurd ((exposed_iff_of_mem_trace hne hstate).1 hexposed) hclosed
  · rintro ⟨first, hfirst, hexposed⟩
    exact ⟨_, .inl ⟨first, hfirst, rfl⟩, hexposed⟩

end

/-- The states after the private file has been opened lead to where the save ends, and the key is
exposed in one of them exactly if there is a key to write and the file was there with permissions
for others. The umask is of no account, and neither are the pieces in which the files are
written. -/
theorem exposed_while_saved_iff {overwrite : Bool} {privatePieces publicPieces : List Bytes}
    (h : Opens directory pair overwrite fs secured)
    (hprivate : privatePieces.flatten = pair.privateKey.utf8)
    (hpublic : publicPieces.flatten = (publicKeyFile pair).utf8) :
    let l := fs.place (privateKeyPath directory pair.keyType)
    let states := secured.trace (savingSteps directory pair.keyType privatePieces publicPieces)
    states.getLast? = some ((save directory pair overwrite).run.run fs).2 ∧
      ((∃ state ∈ states, Exposed state l pair.privateKey.utf8) ↔
        pair.privateKey.utf8 ≠ [] ∧
          ∃ mode old, fs.find? l = some (.file mode old) ∧ mode &&& othersBits ≠ 0) := by
  intro l states
  constructor
  · rw [h.run_save]
    exact getLast?_trace_savingSteps publicPieces h.writable hprivate hpublic
  · have hexposed := exists_exposed_iff publicPieces h.writable hprivate
    rw [h.place_eq, h.find?_eq] at hexposed
    exact hexposed

/-- A closed directory with an old private key in it. -/
def withOldKey (mode : Mode) : FileSystem :=
  (FileSystem.empty.put ["d".toList] (.directory 0o700)).put
    ["id_ed25519".toList, "d".toList] (.file mode (Text.utf8 "old".toList))

def newPair : KeyPair :=
  ⟨"ssh-ed25519 AAAA".toList, "private".toList, .ed25519⟩

theorem opens_withOldKey (mode : Mode) :
    Opens "d".toList newPair true (withOldKey mode) (withOldKey mode) := by
  have hclosed : IsClosed (withOldKey mode) "d".toList := ⟨.directory 0o700, rfl, rfl⟩
  refine ⟨.inl rfl, hclosed.run_secureDirectory, rfl, ?_⟩
  rintro ⟨old, hold⟩
  nomatch hold

/-- An old key for its owner only: the new one is not exposed in either of two pieces. -/
theorem exposed_while_saved_closed :
    let states := (withOldKey 0o600).trace (savingSteps "d".toList .ed25519
      [Text.utf8 "pri".toList, Text.utf8 "vate".toList] [(publicKeyFile newPair).utf8])
    states.getLast? = some ((save "d".toList newPair true).run.run (withOldKey 0o600)).2 ∧
      ¬∃ state ∈ states,
        Exposed state ["id_ed25519".toList, "d".toList] newPair.privateKey.utf8 := by
  intro states
  have hprivate : [Text.utf8 "pri".toList, Text.utf8 "vate".toList].flatten =
      newPair.privateKey.utf8 := by decide +kernel
  obtain ⟨hlast, hexposed⟩ :=
    exposed_while_saved_iff (opens_withOldKey 0o600) hprivate List.flatten_singleton
  refine ⟨hlast, fun hstates => ?_⟩
  obtain ⟨-, mode, old, hold, hopen⟩ := hexposed.1 hstates
  cases hold
  exact hopen (by decide)

/-- An old key that all can read: at one time the new one is in its place, and all can read it. -/
theorem exists_exposed_while_saved :
    let l := ["id_ed25519".toList, "d".toList]
    Opens "d".toList newPair true (withOldKey 0o644) (withOldKey 0o644) ∧
      ∃ state ∈ (withOldKey 0o644).trace (savingSteps "d".toList .ed25519
          [newPair.privateKey.utf8] [(publicKeyFile newPair).utf8]),
        state.find? l = some (.file 0o644 newPair.privateKey.utf8) ∧
          Exposed state l newPair.privateKey.utf8 := by
  intro l
  have hstate : ∃ state ∈ (withOldKey 0o644).trace (savingSteps "d".toList .ed25519
      [newPair.privateKey.utf8] [(publicKeyFile newPair).utf8]),
      state.find? l = some (.file 0o644 newPair.privateKey.utf8) := by
    decide +kernel
  obtain ⟨state, hstate, hfind⟩ := hstate
  refine ⟨opens_withOldKey 0o644, state, hstate, hfind, 0o644, _, hfind, ?_, List.prefix_refl _, ?_⟩
  · decide +kernel
  · decide

end KeyFiles

end SshKeys
