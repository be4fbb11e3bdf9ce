import SshKeys.Text.Basic

/-!
The grammar of the command line.

Arguments are taken from left to right. After the name of a subcommand they are
flags, options with a value, and at most one file. An option may have its value
attached (`--out=DIR`, `-oDIR`, `-o=DIR`) or in the next argument, and one-letter
flags may be written together. A value that stands apart is only held at first;
it is taken in when the next argument has been understood, or at the end. Each
flag and option may be given once, except `-v`.
-/

namespace SshKeys.CommandLine

/-- Why the arguments are refused, or what is shown instead of running anything. -/
inductive UsageError where
  | unknownArgument
  | invalidValue
  | tooManyValues
  | argumentConflict
  | missingRequiredArgument
  | invalidSubcommand
  | missingSubcommand
  | help
  | helpForNoArguments
  | version
  deriving DecidableEq, Repr

inductive Subcommand where
  | generate
  | probe
  | fingerprint
  | inspect
  | authorize
  | list
  deriving DecidableEq, Repr

namespace Subcommand

def all : List Subcommand :=
  [.generate, .probe, .fingerprint, .inspect, .authorize, .list]

def name : Subcommand → Text
  | .generate => "generate".toList
  | .probe => "probe".toList
  | .fingerprint => "fingerprint".toList
  | .inspect => "inspect".toList
  | .authorize => "authorize".toList
  | .list => "list".toList

def ofName? (t : Text) : Option Subcommand :=
  all.find? fun c => c.name == t

/-- Whether a file has to be named. -/
def takesFile : Subcommand → Bool
  | .fingerprint | .inspect | .authorize => true
  | .generate | .probe | .list => false

end Subcommand

/-- Flags and options of subcommands. -/
inductive Parameter where
  | comment
  | rsa
  | out
  | force
  | print
  | json
  | authorize
  | sshDir
  deriving DecidableEq, Repr

/-- What is given with a parameter. -/
inductive ValueKind where
  | nothing
  | text
  /-- never empty -/
  | path
  deriving DecidableEq, Repr

namespace Parameter

def name : Parameter → Text
  | .comment => "comment".toList
  | .rsa => "rsa".toList
  | .out => "out".toList
  | .force => "force".toList
  | .print => "print".toList
  | .json => "json".toList
  | .authorize => "authorize".toList
  | .sshDir => "ssh-dir".toList

def letter? : Parameter → Option Char
  | .comment => some 'C'
  | .out => some 'o'
  | .force => some 'f'
  | _ => none

def kind : Parameter → ValueKind
  | .comment => .text
  | .out | .sshDir => .path
  | _ => .nothing

/-- The parameter that this one is of no use without. -/
def companion? : Subcommand → Parameter → Option Parameter
  | .generate, .json => some .print
  | .generate, .sshDir => some .authorize
  | _, _ => none

end Parameter

def Subcommand.parameters : Subcommand → List Parameter
  | .generate => [.comment, .rsa, .out, .force, .print, .json, .authorize, .sshDir]
  | .authorize => [.sshDir]
  | .list => [.sshDir, .json]
  | .probe | .fingerprint | .inspect => []

/-! ### Taking in arguments -/

/-- An argument that is held until the next one has been understood. -/
inductive Held where
  /-- an option, with its value once that has come -/
  | parameter (p : Parameter) (value : Option Text)
  | file (path : Text)
  deriving DecidableEq, Repr

/-- What has been taken in so far. -/
structure Intake where
  given : List (Parameter × Text)
  verbosity : Nat
  file : Option Text
  held : Option Held
  /-- whether `--` has come, after which nothing is a flag -/
  filesOnly : Bool
  deriving DecidableEq, Repr

namespace Intake

def start : Intake :=
  ⟨[], 0, none, none, false⟩

def has (s : Intake) (p : Parameter) : Bool :=
  s.given.any (·.1 == p)

def value? (s : Intake) (p : Parameter) : Option Text :=
  s.given.lookup p

/-- Takes in a parameter with its value. -/
def give (s : Intake) (p : Parameter) (value : Text) : Except UsageError Intake :=
  if s.has p then .error .argumentConflict
  else if p.kind = .path ∧ value = [] then .error .invalidValue
  else .ok { s with given := s.given ++ [(p, value)] }

/-- Takes in what is held. -/
def settle (s : Intake) : Except UsageError Intake :=
  match s.held with
  | none => .ok s
  | some (.parameter _ none) => .error .invalidValue
  | some (.parameter p (some value)) => give { s with held := none } p value
  | some (.file path) =>
    if path = [] then .error .invalidValue else .ok { s with file := some path, held := none }

def louder (s : Intake) : Intake :=
  { s with verbosity := s.verbosity + 1 }

/-- A parameter, with its value if one is attached. -/
def parameter (s : Intake) (p : Parameter) (attached : Option Text) : Except UsageError Intake :=
  match p.kind, attached with
  | .nothing, some _ => .error .tooManyValues
  | .nothing, none => do (← s.settle).give p []
  | _, some value => do (← s.settle).give p value
  | _, none => do return { ← s.settle with held := some (.parameter p none) }

/-- The part before the first equals sign, and the part after it. -/
def cutAtEquals (t : Text) : Text × Option Text :=
  match t.span (· != '=') with
  | (before, []) => (before, none)
  | (before, _ :: after) => (before, some after)

/-- An argument with two dashes, less the dashes. -/
def long (c : Subcommand) (s : Intake) (t : Text) : Except UsageError Intake :=
  let (name, attached) := cutAtEquals t
  match c.parameters.find? (fun p => p.name == name) with
  | some p => s.parameter p attached
  | none =>
    if name = "verbose".toList then
      if attached.isSome then .error .tooManyValues else do return (← s.settle).louder
    else if name = "help".toList then
      if attached.isSome then .error .tooManyValues else do
        let _ ← s.settle
        throw .help
    else .error .unknownArgument

/-- An argument with one dash, less the dash: letters one after the other. -/
def letters (c : Subcommand) (s : Intake) : Text → Except UsageError Intake
  | [] => .ok s
  | letter :: rest =>
    match c.parameters.find? (fun p => p.letter? == some letter) with
    | some p =>
      if p.kind = .nothing then do
        let s ← s.parameter p none
        letters c s rest
      else
        match rest with
        | [] => s.parameter p none
        | '=' :: value => s.parameter p (some value)
        | value => s.parameter p (some value)
    | none =>
      if letter = 'v' then do
        let s ← s.settle
        letters c s.louder rest
      else if letter = 'h' then do
        let _ ← s.settle
        throw .help
      else .error .unknownArgument

/-- An argument that is a file. -/
def operand (c : Subcommand) (s : Intake) (t : Text) : Except UsageError Intake :=
  let named := match s.held with
    | some (.file _) => true
    | _ => s.file.isSome
  if c.takesFile ∧ !named then do return { ← s.settle with held := some (.file t) }
  else .error .unknownArgument

/-- One more argument. -/
def step (c : Subcommand) (s : Intake) (t : Text) : Except UsageError Intake :=
  if s.filesOnly then s.operand c t
  else
    match t with
    | ['-', '-'] => .ok { s with filesOnly := true }
    | '-' :: '-' :: rest => s.long c rest
    | '-' :: letter :: rest => s.letters c (letter :: rest)
    | _ =>
      match s.held with
      | some (.parameter p none) => .ok { s with held := some (.parameter p (some t)) }
      | _ => s.operand c t

def takeAll (c : Subcommand) (s : Intake) : List Text → Except UsageError Intake
  | [] => .ok s
  | t :: more => do takeAll c (← s.step c t) more

/-- Whether nothing is missing: the file, and the companions of the parameters. -/
def isComplete (c : Subcommand) (s : Intake) : Bool :=
  (s.file.isSome || !c.takesFile) &&
    s.given.all fun entry =>
      match entry.1.companion? c with
      | some companion => s.has companion
      | none => true

/-- All the arguments of a subcommand. -/
def ofArguments (c : Subcommand) (arguments : List Text) : Except UsageError Intake := do
  let s ← (← takeAll c start arguments).settle
  if s.isComplete c then return s else throw .missingRequiredArgument

end Intake

/-! ### Commands -/

structure GenerateRequest where
  comment : Text
  rsa : Bool
  out : Option Text
  force : Bool
  print : Bool
  json : Bool
  authorize : Bool
  sshDir : Option Text
  deriving DecidableEq, Repr

inductive Command where
  | generate (options : GenerateRequest)
  | probe
  | fingerprint (file : Text)
  | inspect (file : Text)
  | authorize (file : Text) (sshDir : Option Text)
  | list (sshDir : Option Text) (json : Bool)
  deriving DecidableEq, Repr

structure Invocation where
  verbosity : Nat
  command : Command
  deriving DecidableEq, Repr

def Intake.generateRequest (s : Intake) : GenerateRequest where
  comment := (s.value? .comment).getD []
  rsa := s.has .rsa
  out := s.value? .out
  force := s.has .force
  print := s.has .print
  json := s.has .json
  authorize := s.has .authorize
  sshDir := s.value? .sshDir

/-- The command that complete arguments stand for. -/
def Intake.command (c : Subcommand) (s : Intake) : Command :=
  let file := s.file.getD []
  match c with
  | .generate => .generate s.generateRequest
  | .probe => .probe
  | .fingerprint => .fingerprint file
  | .inspect => .inspect file
  | .authorize => .authorize file (s.value? .sshDir)
  | .list => .list (s.value? .sshDir) (s.has .json)

/-! ### The arguments before the subcommand -/

def helpName : Text :=
  "help".toList

/-- A word where a subcommand has to stand. -/
def isCommandName (t : Text) : Bool :=
  (Subcommand.ofName? t).isSome || t == helpName

/-- The names after `help`: at most one, of a subcommand. -/
def helpFor : List Text → UsageError
  | [] => .help
  | [name] => if isCommandName name then .help else .invalidSubcommand
  | _ => .invalidSubcommand

/-- Letters before the subcommand; the number of `v` among them. -/
def leadingLetters : Text → Except UsageError Nat
  | [] => .ok 0
  | 'v' :: rest => do return (← leadingLetters rest) + 1
  | 'h' :: _ => .error .help
  | 'V' :: _ => .error .version
  | _ => .error .unknownArgument

/-- An argument with two dashes before the subcommand; how much louder it makes. -/
def leadingLong (t : Text) : Except UsageError Nat :=
  let (name, attached) := Intake.cutAtEquals t
  let known (result : Except UsageError Nat) : Except UsageError Nat :=
    if attached.isSome then .error .tooManyValues else result
  if name = "verbose".toList then known (.ok 1)
  else if name = "help".toList then known (.error .help)
  else if name = "version".toList then known (.error .version)
  else .error .unknownArgument

/-- There is no subcommand. -/
def noSubcommand (verbosity : Nat) : UsageError :=
  if verbosity = 0 then .helpForNoArguments else .missingSubcommand

/-- Reads the arguments, `verbosity` of which have been `v`. -/
def parseFrom (verbosity : Nat) : List Text → Except UsageError Invocation
  | [] => .error (noSubcommand verbosity)
  | t :: rest =>
    match Subcommand.ofName? t with
    | some c => do
      let s ← Intake.ofArguments c rest
      return ⟨if s.verbosity = 0 then verbosity else s.verbosity, s.command c⟩
    | none =>
      if t = helpName then .error (helpFor rest)
      else
        match t with
        | ['-', '-'] =>
          match rest with
          | [] => .error (noSubcommand verbosity)
          | word :: _ =>
            .error (if isCommandName word then .unknownArgument else .invalidSubcommand)
        | '-' :: '-' :: name => do parseFrom (verbosity + (← leadingLong name)) rest
        | '-' :: letter :: more => do
          parseFrom (verbosity + (← leadingLetters (letter :: more))) rest
        | _ => .error .invalidSubcommand

/-- The command that the arguments ask for. -/
def parse (arguments : List Text) : Except UsageError Invocation :=
  parseFrom 0 arguments

end SshKeys.CommandLine
