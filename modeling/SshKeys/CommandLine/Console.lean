import SshKeys.CommandLine.Paint
import SshKeys.KeyFiles

/-!
What a command works on: files and the text it has written. A command that
fails keeps both.
-/

namespace SshKeys.CommandLine

/-- What a command is told from outside. -/
structure Environment where
  home : Option Text
  /-- whether the output is coloured -/
  color : Bool
  generator : Generator
  /-- the check-int of the next private key -/
  check : UInt32

structure Console where
  files : FileSystem
  output : Text

abbrev Run := ExceptT KeyError (StateM Console)

namespace Run

def write (t : Text) : Run Unit :=
  modify fun s => { s with output := s.output ++ t }

def writeLine (t : Text) : Run Unit :=
  write (t ++ ['\n'])

/-- Lines one after the other. -/
def writeLines : List Text → Run Unit
  | [] => return
  | t :: more => do
    writeLine t
    writeLines more

/-- Changes the files. -/
def change {α : Type} (c : FileSystem.Change α) : Run α := do
  let s ← get
  let (result, files) := c.run.run s.files
  set { s with files := files }
  match result with
  | .ok x => return x
  | .error e => throw e

/-- Something seen in the files. -/
def look {α : Type} (see : FileSystem → Except KeyError α) : Run α := do
  match see (← get).files with
  | .ok x => return x
  | .error e => throw e

/-- The directory given, or the one in the home directory. -/
def directory (env : Environment) (given : Option Text) : Except KeyError Text :=
  match given with
  | some d => .ok d
  | none => KeyFiles.defaultDirectory env.home

end Run

end SshKeys.CommandLine
