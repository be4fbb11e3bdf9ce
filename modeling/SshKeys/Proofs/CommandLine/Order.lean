import Mathlib.Data.List.Nodup
import Mathlib.Data.List.Perm.Basic
import SshKeys.CommandLine.Commands
import SshKeys.Proofs.Except
import SshKeys.Proofs.Text

/-!
The arguments of `generate`, each with all that belongs to it, in any order.

Such an argument is taken in by itself (`step_text`), so a run through all of them
gives every parameter its value unless it meets one for the second time
(`takeAll_texts`). What is accepted and which options it stands for is then said by
what is among the arguments (`IsConsistent`, `AsGiven`), and that is the same in any
order.
-/

namespace SshKeys.CommandLine

/-- A parameter and a value of its kind. -/
structure Setting where
  parameter : Parameter
  value : Text
  /-- a value is there, and not an empty one, where the parameter takes one -/
  fits : value = [] ↔ parameter.kind = .nothing
  deriving DecidableEq

/-- An argument that needs no other one: a parameter, its value attached if it has one, or `-v`. -/
inductive Argument where
  | setting (x : Setting)
  | louder
  deriving DecidableEq

namespace Setting

def entry (x : Setting) : Parameter × Text :=
  (x.parameter, x.value)

def attached (x : Setting) : Option Text :=
  if x.parameter.kind = .nothing then none else some x.value

/-- An argument with two dashes, less the dashes. -/
def text (x : Setting) : Text :=
  match x.attached with
  | none => x.parameter.name
  | some value => x.parameter.name ++ '=' :: value

end Setting

namespace Argument

def text : Argument → Text
  | .setting x => '-' :: '-' :: x.text
  | .louder => ['-', 'v']

def setting? : Argument → Option Setting
  | .setting x => some x
  | .louder => none

end Argument

/-- The command line with these arguments. -/
def generateLine (arguments : List Argument) : List Text :=
  Subcommand.generate.name :: arguments.map Argument.text

variable {arguments : List Argument}

def settings (arguments : List Argument) : List Setting :=
  arguments.filterMap Argument.setting?

/-- The parameters of the arguments, as often as they occur. -/
def mentioned (arguments : List Argument) : List Parameter :=
  (settings arguments).map Setting.parameter

theorem mem_settings {x : Setting} : x ∈ settings arguments ↔ .setting x ∈ arguments := by
  rw [settings, List.mem_filterMap]
  constructor
  · rintro ⟨a, ha, hx⟩
    cases a with
    | setting y => exact Option.some.inj hx ▸ ha
    | louder => nomatch hx
  · intro h
    exact ⟨.setting x, h, rfl⟩

/-- Among the arguments there is one with this parameter and this value. -/
def Gives (arguments : List Argument) (p : Parameter) (value : Text) : Prop :=
  ∃ x, .setting x ∈ arguments ∧ x.parameter = p ∧ x.value = value

/-- What is asked of the arguments as a whole. -/
structure IsConsistent (arguments : List Argument) : Prop where
  once : (mentioned arguments).Nodup
  json : .json ∈ mentioned arguments → .print ∈ mentioned arguments
  sshDir : .sshDir ∈ mentioned arguments → .authorize ∈ mentioned arguments

/-- The options have the values that are given, and what is not given is off, empty or absent. -/
structure AsGiven (arguments : List Argument) (o : GenerateRequest) : Prop where
  comment : ∀ value, Gives arguments .comment value → o.comment = value
  noComment : (∀ value, ¬Gives arguments .comment value) → o.comment = []
  rsa : o.rsa = true ↔ .rsa ∈ mentioned arguments
  out : ∀ value, o.out = some value ↔ Gives arguments .out value
  force : o.force = true ↔ .force ∈ mentioned arguments
  print : o.print = true ↔ .print ∈ mentioned arguments
  json : o.json = true ↔ .json ∈ mentioned arguments
  authorize : o.authorize = true ↔ .authorize ∈ mentioned arguments
  sshDir : ∀ value, o.sshDir = some value ↔ Gives arguments .sshDir value

/-! ### Names -/

theorem Parameter.find?_name (p : Parameter) :
    Subcommand.generate.parameters.find? (fun q => q.name == p.name) = some p := by
  cases p <;> rfl

theorem Parameter.equals_not_mem_name (p : Parameter) : '=' ∉ p.name := by
  cases p <;> decide

theorem Parameter.name_ne_nil (p : Parameter) : p.name ≠ [] := by
  cases p <;> decide

namespace Intake

variable {s : Intake}

theorem cutAtEquals_text (x : Setting) : cutAtEquals x.text = (x.parameter.name, x.attached) := by
  have hname : ∀ c ∈ x.parameter.name, (c != '=') = true := by
    intro c hc
    rw [bne_iff_ne]
    rintro rfl
    exact x.parameter.equals_not_mem_name hc
  rw [cutAtEquals, Setting.text]
  cases x.attached with
  | none =>
      dsimp only
      rw [Text.span_of_forall hname]
  | some value =>
      dsimp only
      rw [Text.span_append_cons hname (by simp)]

/-! ### One argument -/

def withSetting (s : Intake) (x : Setting) : Intake :=
  { s with given := s.given ++ [x.entry] }

/-- What is left when all arguments have been taken in. -/
def after (s : Intake) (arguments : List Argument) : Intake :=
  { s with
    given := s.given ++ (settings arguments).map Setting.entry
    verbosity := s.verbosity + arguments.count .louder }

/-- Nothing is held, and no `--` has come. -/
structure IsIdle (s : Intake) : Prop where
  held : s.held = none
  filesOnly : s.filesOnly = false

namespace IsIdle

theorem settle (h : s.IsIdle) : s.settle = .ok s := by
  rw [Intake.settle, h.held]

theorem louder (h : s.IsIdle) : s.louder.IsIdle :=
  ⟨h.held, h.filesOnly⟩

theorem withSetting (h : s.IsIdle) (x : Setting) : (s.withSetting x).IsIdle :=
  ⟨h.held, h.filesOnly⟩

theorem after (h : s.IsIdle) (arguments : List Argument) : (s.after arguments).IsIdle :=
  ⟨h.held, h.filesOnly⟩

end IsIdle

theorem isIdle_start : start.IsIdle :=
  ⟨rfl, rfl⟩

theorem has_iff {p : Parameter} : s.has p = true ↔ p ∈ s.given.map Prod.fst := by
  simp [has]

theorem map_fst_withSetting (s : Intake) (x : Setting) :
    (s.withSetting x).given.map Prod.fst = s.given.map Prod.fst ++ [x.parameter] := by
  simp [withSetting, Setting.entry]

theorem nodup_withSetting {x : Setting} (h : (s.given.map Prod.fst).Nodup)
    (hhas : ¬s.has x.parameter = true) : ((s.withSetting x).given.map Prod.fst).Nodup := by
  rw [map_fst_withSetting, List.nodup_append_comm, List.singleton_append, List.nodup_cons]
  exact ⟨fun hmem => hhas (has_iff.2 hmem), h⟩

/-- What an argument comes to that is taken in by itself. -/
def takeIn (s : Intake) : Argument → Except UsageError Intake
  | .setting x => if s.has x.parameter then .error .argumentConflict else .ok (s.withSetting x)
  | .louder => .ok s.louder

theorem give_setting (s : Intake) (x : Setting) :
    s.give x.parameter x.value = s.takeIn (.setting x) := by
  have hvalue : ¬(x.parameter.kind = .path ∧ x.value = []) := by
    rintro ⟨hpath, hempty⟩
    nomatch hpath.symm.trans (x.fits.1 hempty)
  rw [give, takeIn, if_neg hvalue]
  rfl

theorem parameter_attached (h : s.IsIdle) (x : Setting) :
    s.parameter x.parameter x.attached = s.give x.parameter x.value := by
  unfold Intake.parameter Setting.attached
  cases hkind : x.parameter.kind with
  | nothing =>
      rw [if_pos rfl, x.fits.2 hkind]
      show (s.settle >>= fun s => s.give x.parameter []) = _
      rw [h.settle, ok_bind]
  | text | path =>
      rw [if_neg nofun]
      show (s.settle >>= fun s => s.give x.parameter x.value) = _
      rw [h.settle, ok_bind]

theorem long_text (h : s.IsIdle) (x : Setting) :
    s.long .generate x.text = s.takeIn (.setting x) := by
  rw [long, cutAtEquals_text]
  dsimp only
  rw [Parameter.find?_name]
  dsimp only
  rw [parameter_attached h, give_setting]

theorem text_ne_nil (x : Setting) : x.text ≠ [] := by
  have hname := x.parameter.name_ne_nil
  rw [Setting.text]
  split
  · exact hname
  · simp [hname]

theorem step_text (h : s.IsIdle) (a : Argument) : s.step .generate a.text = s.takeIn a := by
  cases a with
  | louder =>
      show (if s.filesOnly then s.operand .generate ['-', 'v'] else s.letters .generate ['v']) = _
      rw [h.filesOnly, if_neg nofun]
      show (s.settle >>= fun s => letters .generate s.louder []) = _
      rw [h.settle, ok_bind]
      rfl
  | setting x =>
      obtain ⟨c, rest, htext⟩ := List.exists_cons_of_ne_nil (text_ne_nil x)
      rw [← long_text h, Argument.text, htext]
      show (if s.filesOnly then s.operand .generate ('-' :: '-' :: c :: rest)
        else s.long .generate (c :: rest)) = _
      rw [h.filesOnly, if_neg nofun]

/-! ### All arguments -/

theorem after_nil (s : Intake) : s.after [] = s := by
  simp [after, settings]

theorem after_louder (s : Intake) (arguments : List Argument) :
    s.louder.after arguments = s.after (.louder :: arguments) := by
  simp only [after, louder, List.count_cons_self, Nat.add_right_comm, Nat.add_assoc]
  rfl

theorem after_setting (s : Intake) (x : Setting) (arguments : List Argument) :
    (s.withSetting x).after arguments = s.after (.setting x :: arguments) := by
  have hne : Argument.setting x ≠ .louder := nofun
  have hcount : (Argument.setting x :: arguments).count .louder = arguments.count .louder :=
    List.count_cons_of_ne hne
  simp only [after, withSetting, hcount, List.append_assoc]
  rfl

/-- The run: as long as no parameter comes again, each argument leaves the intake idle. -/
theorem takeAll_texts (h : s.IsIdle) (hdistinct : (s.given.map Prod.fst).Nodup)
    (arguments : List Argument) :
    takeAll .generate s (arguments.map Argument.text) =
      if (s.given.map Prod.fst ++ mentioned arguments).Nodup then .ok (s.after arguments)
      else .error .argumentConflict := by
  induction arguments generalizing s with
  | nil =>
      rw [if_pos (by simpa [mentioned, settings] using hdistinct), after_nil]
      rfl
  | cons a arguments ih =>
      rw [List.map_cons, takeAll, step_text h]
      cases a with
      | louder =>
          rw [takeIn, ok_bind, ih h.louder hdistinct, after_louder]
          rfl
      | setting x =>
          have hmentioned :
              mentioned (.setting x :: arguments) = x.parameter :: mentioned arguments := rfl
          rw [takeIn, hmentioned]
          by_cases hhas : s.has x.parameter = true
          · have hagain : ¬(s.given.map Prod.fst ++ x.parameter :: mentioned arguments).Nodup :=
              fun hnodup =>
                List.disjoint_of_nodup_append hnodup (has_iff.1 hhas) List.mem_cons_self
            rw [if_pos hhas, if_neg hagain]
            rfl
          · rw [if_neg hhas, ok_bind, ih (h.withSetting x) (nodup_withSetting hdistinct hhas),
              after_setting, map_fst_withSetting, List.append_assoc, List.singleton_append]

theorem given_after_start :
    (start.after arguments).given = (settings arguments).map Setting.entry := rfl

theorem map_fst_after_start : (start.after arguments).given.map Prod.fst = mentioned arguments := by
  rw [given_after_start, List.map_map]
  rfl

theorem has_after_start {p : Parameter} :
    (start.after arguments).has p = true ↔ p ∈ mentioned arguments := by
  rw [has_iff, map_fst_after_start]

/-- Where no key comes twice, a value is found exactly if it stands with the key. -/
theorem lookup_eq_some_iff_mem {α β : Type} [DecidableEq α] {entries : List (α × β)}
    (h : (entries.map Prod.fst).Nodup) {key : α} {value : β} :
    entries.lookup key = some value ↔ (key, value) ∈ entries := by
  induction entries with
  | nil => simp
  | cons entry entries ih =>
      obtain ⟨key', value'⟩ := entry
      obtain ⟨hnot, hrest⟩ := List.nodup_cons.1 h
      rw [List.lookup_cons, List.mem_cons]
      by_cases hkey : key = key'
      · subst hkey
        have hother : (key, value) ∉ entries := fun hmem =>
          hnot (List.mem_map.2 ⟨_, hmem, rfl⟩)
        rw [beq_self_eq_true, or_iff_left hother, Prod.mk.injEq]
        simp [eq_comm]
      · have hne : (key, value) ≠ (key', value') := fun heq => hkey (congrArg Prod.fst heq)
        rw [beq_false_of_ne hkey, or_iff_right hne]
        exact ih hrest

theorem value?_after_start (h : (mentioned arguments).Nodup) {p : Parameter} {value : Text} :
    (start.after arguments).value? p = some value ↔ Gives arguments p value := by
  rw [value?, lookup_eq_some_iff_mem (map_fst_after_start ▸ h), given_after_start, List.mem_map]
  simp only [mem_settings, Setting.entry, Prod.mk.injEq]
  rfl

theorem isComplete_iff :
    s.isComplete .generate = true ↔
      (s.has .json = true → s.has .print = true) ∧
        (s.has .sshDir = true → s.has .authorize = true) := by
  have hhas : ∀ p, s.has p = true ↔ ∃ entry ∈ s.given, entry.1 = p := by simp [has]
  rw [isComplete, Bool.and_eq_true, List.all_eq_true]
  constructor
  · rintro ⟨-, hall⟩
    constructor
    all_goals
      rw [hhas]
      rintro ⟨⟨p, value⟩, hentry, rfl⟩
      exact hall _ hentry
  · rintro ⟨hjson, hsshDir⟩
    refine ⟨by simp [Subcommand.takesFile], ?_⟩
    rintro ⟨p, value⟩ hentry
    cases p with
    | json => exact hjson ((hhas .json).2 ⟨_, hentry, rfl⟩)
    | sshDir => exact hsshDir ((hhas .sshDir).2 ⟨_, hentry, rfl⟩)
    | comment | rsa | out | force | print | authorize => rfl

theorem ofArguments_texts (arguments : List Argument) :
    ofArguments .generate (arguments.map Argument.text) =
      if (mentioned arguments).Nodup then
        if (start.after arguments).isComplete .generate then .ok (start.after arguments)
        else .error .missingRequiredArgument
      else .error .argumentConflict := by
  have hrun : takeAll .generate start (arguments.map Argument.text) =
      if (mentioned arguments).Nodup then .ok (start.after arguments)
      else .error .argumentConflict := takeAll_texts isIdle_start List.nodup_nil arguments
  rw [ofArguments, hrun]
  split
  · rw [ok_bind, (isIdle_start.after arguments).settle, ok_bind]
    rfl
  · rfl

end Intake

open Intake

/-! ### The options -/

/-- The options that are made of the arguments. -/
def optionsOf (arguments : List Argument) : GenerateRequest :=
  (start.after arguments).generateRequest

theorem asGiven_optionsOf (h : (mentioned arguments).Nodup) :
    AsGiven arguments (optionsOf arguments) where
  comment value hvalue := by
    show ((start.after arguments).value? .comment).getD [] = value
    rw [(value?_after_start h).2 hvalue]
    rfl
  noComment hnone := by
    show ((start.after arguments).value? .comment).getD [] = []
    rw [Option.eq_none_iff_forall_ne_some.2 fun value hvalue =>
      hnone value ((value?_after_start h).1 hvalue)]
    rfl
  rsa := has_after_start
  out _ := value?_after_start h
  force := has_after_start
  print := has_after_start
  json := has_after_start
  authorize := has_after_start
  sshDir _ := value?_after_start h

/-- There is one choice of options that is as given. -/
theorem AsGiven.eq {o o' : GenerateRequest} (h : AsGiven arguments o) (h' : AsGiven arguments o') :
    o = o' := by
  have hcomment : o.comment = o'.comment := by
    by_cases hgiven : ∃ value, Gives arguments .comment value
    · obtain ⟨value, hvalue⟩ := hgiven
      rw [h.comment value hvalue, h'.comment value hvalue]
    · have hnone := not_exists.1 hgiven
      rw [h.noComment hnone, h'.noComment hnone]
  have hout : o.out = o'.out := Option.ext fun value => (h.out value).trans (h'.out value).symm
  have hsshDir : o.sshDir = o'.sshDir :=
    Option.ext fun value => (h.sshDir value).trans (h'.sshDir value).symm
  have hrsa := Bool.eq_iff_iff.2 (h.rsa.trans h'.rsa.symm)
  have hforce := Bool.eq_iff_iff.2 (h.force.trans h'.force.symm)
  have hprint := Bool.eq_iff_iff.2 (h.print.trans h'.print.symm)
  have hjson := Bool.eq_iff_iff.2 (h.json.trans h'.json.symm)
  have hauthorize := Bool.eq_iff_iff.2 (h.authorize.trans h'.authorize.symm)
  cases o
  cases o'
  simp only at hcomment hout hsshDir hrsa hforce hprint hjson hauthorize
  simp only [hcomment, hout, hsshDir, hrsa, hforce, hprint, hjson, hauthorize]

/-! ### The command line -/

theorem isConsistent_iff :
    IsConsistent arguments ↔
      (mentioned arguments).Nodup ∧ (start.after arguments).isComplete .generate = true := by
  rw [isComplete_iff]
  simp only [has_after_start]
  constructor
  · intro h
    exact ⟨h.once, h.json, h.sshDir⟩
  · rintro ⟨honce, hjson, hsshDir⟩
    exact ⟨honce, hjson, hsshDir⟩

theorem parse_generateLine (arguments : List Argument) :
    parse (generateLine arguments) = do
      let s ← ofArguments .generate (arguments.map Argument.text)
      return ⟨if s.verbosity = 0 then 0 else s.verbosity, s.command .generate⟩ := rfl

theorem parse_of_isConsistent (h : IsConsistent arguments) :
    parse (generateLine arguments) =
      .ok ⟨arguments.count .louder, .generate (optionsOf arguments)⟩ := by
  obtain ⟨honce, hcomplete⟩ := isConsistent_iff.1 h
  have hverbosity : (start.after arguments).verbosity = arguments.count .louder := Nat.zero_add _
  rw [parse_generateLine, ofArguments_texts, if_pos honce, if_pos hcomplete, ok_bind, hverbosity]
  by_cases hcount : arguments.count .louder = 0
  · rw [if_pos hcount, hcount]
    rfl
  · rw [if_neg hcount]
    rfl

theorem parse_of_not_isConsistent (h : ¬IsConsistent arguments) :
    parse (generateLine arguments) =
      .error (if (mentioned arguments).Nodup then .missingRequiredArgument
        else .argumentConflict) := by
  rw [parse_generateLine, ofArguments_texts]
  split
  · rename_i honce
    rw [if_neg fun hcomplete => h (isConsistent_iff.2 ⟨honce, hcomplete⟩)]
    rfl
  · rfl

section Order

variable {other : List Argument}

theorem mentioned_perm (h : other.Perm arguments) : (mentioned other).Perm (mentioned arguments) :=
  (h.filterMap _).map _

theorem gives_iff_of_perm (h : other.Perm arguments) {p : Parameter} {value : Text} :
    Gives other p value ↔ Gives arguments p value := by
  simp only [Gives, h.mem_iff]

theorem IsConsistent.of_perm (h : IsConsistent arguments) (hperm : other.Perm arguments) :
    IsConsistent other := by
  have hmentioned := mentioned_perm hperm
  exact ⟨hmentioned.nodup_iff.2 h.once, by simpa only [hmentioned.mem_iff] using h.json,
    by simpa only [hmentioned.mem_iff] using h.sshDir⟩

theorem AsGiven.of_perm {o : GenerateRequest} (h : AsGiven arguments o)
    (hperm : other.Perm arguments) : AsGiven other o := by
  have hmentioned : ∀ p, p ∈ mentioned other ↔ p ∈ mentioned arguments :=
    fun p => (mentioned_perm hperm).mem_iff
  have hgives : ∀ p value, Gives other p value ↔ Gives arguments p value :=
    fun p value => gives_iff_of_perm hperm
  constructor
  all_goals simp only [hmentioned, hgives]
  · exact h.comment
  · exact h.noComment
  · exact h.rsa
  · exact h.out
  · exact h.force
  · exact h.print
  · exact h.json
  · exact h.authorize
  · exact h.sshDir

theorem parse_of_perm (h : other.Perm arguments) :
    parse (generateLine other) = parse (generateLine arguments) := by
  by_cases hconsistent : IsConsistent arguments
  · have hother := hconsistent.of_perm h
    have hoptions : optionsOf other = optionsOf arguments :=
      (asGiven_optionsOf hother.once).eq ((asGiven_optionsOf hconsistent.once).of_perm h)
    rw [parse_of_isConsistent hconsistent, parse_of_isConsistent hother, hoptions, h.count_eq]
  · have hother : ¬IsConsistent other := fun hother => hconsistent (hother.of_perm h.symm)
    rw [parse_of_not_isConsistent hconsistent, parse_of_not_isConsistent hother,
      if_congr (mentioned_perm h).nodup_iff rfl rfl]

end Order

theorem exists_parse_iff :
    (∃ invocation, parse (generateLine arguments) = .ok invocation) ↔ IsConsistent arguments := by
  refine ⟨?_, fun h => ⟨_, parse_of_isConsistent h⟩⟩
  rintro ⟨invocation, hparse⟩
  by_contra h
  rw [parse_of_not_isConsistent h] at hparse
  nomatch hparse

/-- What is accepted is run, on the files as they are and with nothing written before. -/
theorem console_runArguments_of_ok {line : List Text} {invocation : Invocation}
    (h : parse line = .ok invocation) (env : Environment) (input : Text) (files : FileSystem) :
    (runArguments env input line files).2 =
      ((invocation.command.run env input).run.run ⟨files, []⟩).2 := by
  rw [runArguments, h]
  dsimp only
  split
  · rename_i hrun
    rw [hrun]
  · rename_i hrun
    rw [hrun]

/-- The arguments of `generate` mean the same in any order. They are accepted exactly if nothing
but `-v` comes twice and no parameter lacks the one that it is of no use without, and then
`generate` runs with the options that are given. Otherwise nothing is run. -/
theorem parse_generate (arguments : List Argument) :
    (∀ other, other.Perm arguments →
      parse (generateLine other) = parse (generateLine arguments)) ∧
    ((∃ invocation, parse (generateLine arguments) = .ok invocation) ↔ IsConsistent arguments) ∧
    (∀ invocation, parse (generateLine arguments) = .ok invocation →
      ∃ o, invocation.command = .generate o ∧ AsGiven arguments o ∧
        ∀ env input files, (runArguments env input (generateLine arguments) files).2 =
          (((Command.generate o).run env input).run.run ⟨files, []⟩).2) ∧
    ∀ e, parse (generateLine arguments) = .error e → ∀ env input files,
      runArguments env input (generateLine arguments) files = (.refused e, ⟨files, []⟩) := by
  refine ⟨fun _ => parse_of_perm, exists_parse_iff, fun invocation hparse => ?_,
    fun e hparse env input files => ?_⟩
  · have h : IsConsistent arguments := exists_parse_iff.1 ⟨invocation, hparse⟩
    have hcommand : invocation.command = .generate (optionsOf arguments) := by
      rw [parse_of_isConsistent h] at hparse
      exact Except.ok.inj hparse ▸ rfl
    refine ⟨_, hcommand, asGiven_optionsOf h.once, fun env input files => ?_⟩
    rw [console_runArguments_of_ok hparse, hcommand]
  · rw [runArguments, hparse]

/-- A value with an equals sign in it, a parameter in front of the one that it needs, and `-v`
twice; and a parameter without the one that it needs. -/
theorem parse_generate_reversed :
    let sshDir : Argument := .setting ⟨.sshDir, "d".toList, by decide⟩
    let comment : Argument := .setting ⟨.comment, "a=b".toList, by decide⟩
    let authorize : Argument := .setting ⟨.authorize, [], by decide⟩
    let arguments := [sshDir, .louder, comment, authorize, .louder]
    let o : GenerateRequest :=
      ⟨"a=b".toList, false, none, false, false, false, true, some "d".toList⟩
    generateLine arguments =
        ["generate", "--ssh-dir=d", "-v", "--comment=a=b", "--authorize", "-v"].map String.toList ∧
      parse (generateLine arguments.reverse) = .ok ⟨2, .generate o⟩ ∧
      AsGiven arguments o ∧
      ∀ env input files, runArguments env input (generateLine [sshDir, comment]) files =
        (.refused .missingRequiredArgument, ⟨files, []⟩) := by
  intro sshDir comment authorize arguments o
  have hparse : parse (generateLine arguments) = .ok ⟨2, .generate o⟩ := by decide +kernel
  have hlacks : parse (generateLine [sshDir, comment]) = .error .missingRequiredArgument := by
    decide +kernel
  obtain ⟨hperm, -, haccepted, -⟩ := parse_generate arguments
  obtain ⟨-, -, -, hrefused⟩ := parse_generate [sshDir, comment]
  obtain ⟨o', hcommand, hgiven, -⟩ := haccepted _ hparse
  obtain rfl : o = o' := Command.generate.inj hcommand
  exact ⟨by decide +kernel, (hperm _ (List.reverse_perm arguments)).trans hparse, hgiven,
    hrefused _ hlacks⟩

end SshKeys.CommandLine
