import SshKeys.CommandLine.Commands
import SshKeys.Proofs.AuthorizedKeys.Adding
import SshKeys.Proofs.CommandLine.Console
import SshKeys.Proofs.KeyFiles.Saving

/-!
What `generate` does to the files.

Only two of its parts change any: `finish`, which saves the pair, and `authorize`,
which adds its public key. So the whole command keeps what these two keep
(`keeps_run`), and it gets to them only under conditions that are named there.
-/

namespace SshKeys.CommandLine.Generate

open FileSystem Run

/-- The pair that the command is about. -/
def generated (env : Environment) (o : GenerateRequest) : Except KeyError KeyPair :=
  KeyPair.generate (if o.rsa then env.generator.rsaOnly else env.generator) o.comment env.check

/-- Why the key files may be written, in a run through states with `inv`. -/
inductive MayWrite (inv : FileSystem → Prop) (o : GenerateRequest) (directory : Text)
    (keyType : KeyType) (answer : Text) : Prop
  | free {fs : FileSystem} (hinv : inv fs) (hfree : existing fs directory keyType = [])
  | forced (h : o.force = true)
  | agreed (h : isYes answer = true)

/-- What is left to do when there is a pair that is not printed. -/
def proceed (env : Environment) (o : GenerateRequest) (pair : KeyPair) : Run (Option Question) := do
  let directory ← Run.directory env o.out
  let inTheWay := existing (← get).files directory pair.keyType
  if inTheWay = [] ∨ o.force then
    finish env o directory pair
    return none
  Run.writeLines (inTheWay.map (warning env))
  Run.write "Overwrite? [y/N] ".toList
  return some ⟨o, directory, pair⟩

/-- A question that is asked in a run of the command. -/
structure Asks (env : Environment) (o : GenerateRequest) (q : Question) : Prop where
  options : q.options = o
  notPrinted : o.print = false
  pair : generated env o = .ok q.pair
  directory : Run.directory env o.out = .ok q.directory

section

variable {env : Environment} {o : GenerateRequest} {input answer : Text}
  {inv : FileSystem → Prop}

-- the two parts that change files, and when they are reached
variable
  (hauthorize : o.print = true → ∀ pair, generated env o = .ok pair →
    Keeps inv (authorize env o pair) fun _ => True)
  (hfinish : o.print = false → ∀ pair directory, generated env o = .ok pair →
    Run.directory env o.out = .ok directory → MayWrite inv o directory pair.keyType answer →
      Keeps inv (finish env o directory pair) fun _ => True)

include hfinish in
theorem keeps_proceed {pair : KeyPair} (hprint : o.print = false)
    (hpair : generated env o = .ok pair) :
    Keeps inv (proceed env o pair) fun question => ∀ q ∈ question, Asks env o q := by
  refine (Keeps.lift _).bind fun directory hdirectory => Keeps.get.bind fun s hs => ?_
  dsimp only
  split
  · rename_i hfree
    have hmay : MayWrite inv o directory pair.keyType answer := hfree.elim (.free hs) .forced
    exact (hfinish hprint pair directory hpair hdirectory hmay).bind fun _ _ => .pure nofun
  · refine (Keeps.writeLines _).bind fun _ _ => (Keeps.write _).bind fun _ _ => .pure ?_
    rintro _ ⟨⟩
    exact ⟨rfl, hprint, hpair, hdirectory⟩

include hauthorize hfinish

theorem keeps_start :
    Keeps inv (start env o) fun question => ∀ q ∈ question, Asks env o q := by
  unfold start
  cases hprint : o.print with
  | true =>
      refine (Keeps.lift _).bind fun pair hpair => ?_
      exact (hauthorize hprint pair hpair).bind fun _ _ => (Keeps.write _).bind fun _ _ =>
        .pure nofun
  | false =>
      refine (Keeps.write _).bind fun _ _ => (Keeps.lift _).bind fun pair hpair => ?_
      have hproceed := keeps_proceed hfinish hprint hpair
      refine (Keeps.writeLine _).bind fun _ _ => ?_
      dsimp only
      split
      · exact (Keeps.writeLine _).bind fun _ _ => hproceed
      · exact hproceed

/-- What the two parts that change files keep is kept by the whole command. -/
theorem keeps_run (hanswer : answer = input.takeWhile (· != '\n')) :
    Keeps inv ((Command.generate o).run env input) fun _ => True := by
  refine (keeps_start hauthorize hfinish).bind fun question hasks => ?_
  cases question with
  | none => exact .pure trivial
  | some q =>
      obtain ⟨rfl, hprint, hpair, hdirectory⟩ := hasks q rfl
      show Keeps inv (answered env q _) _
      rw [answered, ← hanswer]
      split
      · rename_i hyes
        exact hfinish hprint q.pair q.directory hpair hdirectory (.agreed hyes)
      · exact .writeLine _

end

/-! ### Permission -/

theorem existing_eq_nil_iff {fs : FileSystem} {directory : Text} {keyType : KeyType} :
    existing fs directory keyType = [] ↔
      ∀ path ∈ KeyFiles.pairPaths directory keyType, fs.holds path = false := by
  simp [existing, KeyFiles.pairPaths, and_comm]

theorem isYes_iff {answer : Text} :
    isYes answer = true ↔
      (Text.trim answer).map Char.toLower ∈ ["y".toList, "yes".toList] := by
  simp [isYes]

/-- A key that is there is not written over, unless that is wanted or agreed to. -/
theorem not_mayWrite {fs : FileSystem} {o : GenerateRequest} {directory path answer : Text}
    {keyType : KeyType} (hforce : o.force = false)
    (hpath : path ∈ KeyFiles.pairPaths directory keyType) (hholds : fs.holds path = true)
    (hanswer : (Text.trim answer).map Char.toLower ∉ ["y".toList, "yes".toList]) :
    ¬MayWrite (· = fs) o directory keyType answer := by
  intro h
  cases h with
  | free hinv hfree =>
      subst hinv
      have habsent := existing_eq_nil_iff.1 hfree path hpath
      simp [hholds] at habsent
  | forced h => simp [hforce] at h
  | agreed h => exact hanswer (isYes_iff.1 h)

/-! ### What is touched -/

section

variable (env : Environment) (o : GenerateRequest)

/-- The directory that gets the key files, if they are wanted and there is one. -/
def outDirectories : List Text :=
  if o.print then [] else (Run.directory env o.out).toOption.toList

/-- The directory whose authorized_keys file gets the key, if that is wanted and there is one. -/
def sshDirectories : List Text :=
  if o.authorize then (Run.directory env o.sshDir).toOption.toList else []

/-- The places that a pair of this type is written to. -/
def writtenAt (keyType : KeyType) (fs : FileSystem) : List Location :=
  (outDirectories env o).flatMap (KeyFiles.savedAt fs · keyType) ++
    (sshDirectories env o).flatMap (AuthorizedKeys.authorizedAt fs)

/-- The places where directories may have to be made. -/
def MayMake (fs : FileSystem) (l : Location) : Prop :=
  ∃ directory ∈ outDirectories env o ++ sshDirectories env o, fs.OnTheWay directory l

end

variable {env : Environment} {o : GenerateRequest} {fs : FileSystem} {keyType : KeyType}
  {pair : KeyPair} {directory : Text}

/-- Nothing but the places of the command has been touched. -/
def Within (env : Environment) (o : GenerateRequest) (keyType : KeyType) (fs : FileSystem) :
    FileSystem → Prop :=
  Touches (writtenAt env o keyType fs) (MayMake env o fs) fs

theorem mem_outDirectories (hprint : o.print = false)
    (hdirectory : Run.directory env o.out = .ok directory) : directory ∈ outDirectories env o := by
  simp [outDirectories, hprint, hdirectory, Except.toOption]

theorem mem_sshDirectories (hauthorize : o.authorize = true)
    (hdirectory : Run.directory env o.sshDir = .ok directory) :
    directory ∈ sshDirectories env o := by
  simp [sshDirectories, hauthorize, hdirectory, Except.toOption]

theorem keeps_authorize_within (env : Environment) (o : GenerateRequest) (keyType : KeyType)
    (fs : FileSystem) (pair : KeyPair) :
    Keeps (Within env o keyType fs) (authorize env o pair) fun _ => True := by
  unfold authorize
  cases hauthorize : o.authorize with
  | false => exact .pure trivial
  | true =>
      refine (Keeps.lift _).bind fun directory hdirectory => ?_
      refine (Keeps.change fun fs' hwithin => ?_).bind fun _ _ => .pure trivial
      have hadd := AuthorizedKeys.touches_add directory pair.publicKey fs'
      rw [AuthorizedKeys.authorizedAt_of_grows hwithin.grows,
        onTheWay_of_grows hwithin.grows] at hadd
      have hmem := mem_sshDirectories hauthorize hdirectory
      refine hwithin.trans (hadd.mono ?_ fun l hl => ⟨directory, List.mem_append_right _ hmem, hl⟩)
      exact fun l hl => List.mem_append_right _ (List.mem_flatMap.2 ⟨directory, hmem, hl⟩)

theorem keeps_finish_within (hprint : o.print = false)
    (hdirectory : Run.directory env o.out = .ok directory) (pair : KeyPair) (fs : FileSystem) :
    Keeps (Within env o pair.keyType fs) (finish env o directory pair) fun _ => True := by
  refine Keeps.bind (Keeps.change fun fs' hwithin => ?_) fun saved _ => ?_
  · have hsave := KeyFiles.touches_save directory pair true fs'
    rw [KeyFiles.savedAt_of_grows hwithin.grows, onTheWay_of_grows hwithin.grows] at hsave
    have hmem := mem_outDirectories hprint hdirectory
    refine hwithin.trans (hsave.mono ?_ fun l hl => ⟨directory, List.mem_append_left _ hmem, hl⟩)
    exact fun l hl => List.mem_append_left _ (List.mem_flatMap.2 ⟨directory, hmem, hl⟩)
  · refine (keeps_authorize_within env o pair.keyType fs pair).bind fun _ _ => ?_
    exact (Keeps.lift _).bind fun _ _ => .writeLines _

/-! ### The whole command -/

theorem keeps_run_within (input : Text) (fs : FileSystem) (hpair : generated env o = .ok pair) :
    Keeps (Within env o pair.keyType fs) ((Command.generate o).run env input) fun _ => True := by
  refine keeps_run (fun _ pair' _ => ?_) (fun hprint pair' directory hpair' hdirectory _ => ?_) rfl
  · exact keeps_authorize_within env o pair.keyType fs pair'
  · obtain rfl : pair = pair' := Except.ok.inj (hpair.symm.trans hpair')
    exact keeps_finish_within hprint hdirectory pair fs

theorem keeps_run_of_error {e : KeyError} (he : generated env o = .error e)
    (inv : FileSystem → Prop) (input : Text) :
    Keeps inv ((Command.generate o).run env input) fun _ => True := by
  refine keeps_run (fun _ pair hpair => ?_) (fun _ pair directory hpair => ?_) rfl
  all_goals simp [he] at hpair

/-- A pair that is only printed. -/
theorem keeps_run_of_print (hprint : o.print = true) (hauthorize : o.authorize = false)
    (inv : FileSystem → Prop) (input : Text) :
    Keeps inv ((Command.generate o).run env input) fun _ => True := by
  refine keeps_run (fun _ pair _ => ?_) (fun hnotPrinted => ?_) rfl
  · unfold authorize
    rw [hauthorize]
    exact .pure trivial
  · simp [hprint] at hnotPrinted

/-- A pair that may not be written. -/
theorem keeps_run_of_refused {input : Text} (hpair : generated env o = .ok pair)
    (hdirectory : Run.directory env o.out = .ok directory) (hprint : o.print = false)
    (hmay : ¬MayWrite (· = fs) o directory pair.keyType (input.takeWhile (· != '\n'))) :
    Keeps (· = fs) ((Command.generate o).run env input) fun _ => True := by
  refine keeps_run (fun hprinted => ?_) (fun _ pair' directory' hpair' hdirectory' hmay' => ?_) rfl
  · simp [hprint] at hprinted
  · obtain rfl : pair = pair' := Except.ok.inj (hpair.symm.trans hpair')
    obtain rfl : directory = directory' := Except.ok.inj (hdirectory.symm.trans hdirectory')
    exact absurd hmay' hmay

end SshKeys.CommandLine.Generate
