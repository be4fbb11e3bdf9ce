import SshKeys.CommandLine.Commands
import SshKeys.CommandLine.Footprint
import SshKeys.Generator.BuiltIn

/-!
The program. It reads the files that a command may touch into a table, runs the
command on the table, and writes what has changed back to the disk.

The mode of a file on the disk cannot be asked for. Directories count as open
to all and files as private; what a command wants to be otherwise it sets.
-/

namespace SshKeys

open CommandLine FileSystem

/-- Where a location is on the disk. -/
def Disk.place (l : Location) : String :=
  "/" ++ "/".intercalate (l.reverse.map String.ofList)

/-- Reads one node. -/
def Disk.readNode (fs : FileSystem) (l : Location) : IO FileSystem := do
  if (fs.find? l).isSome then return fs
  let file := (← IO.currentDir) / Disk.place l
  if ← file.isDir then return fs.put l (.directory 0o755)
  if ← file.pathExists then
    return fs.put l (.file 0o600 (← IO.FS.readBinFile file).toList)
  return fs

/-- Reads the nodes on the way along some steps. -/
def Disk.readAlong (fs : FileSystem) (l : Location) : List Text → IO FileSystem
  | [] => Disk.readNode fs l
  | name :: rest => do
    let fs ← Disk.readNode fs l
    Disk.readAlong fs (follow l name) rest

/-- Reads all that is on the way to the given paths. -/
def Disk.read (paths : List Text) : IO FileSystem := do
  let current := (← IO.currentDir).toString.toList
  let start : FileSystem :=
    { FileSystem.empty with workingDirectory := (Path.steps current).reverse }
  let fs ← Disk.readAlong start [] (Path.steps current)
  paths.foldlM (fun fs path => Disk.readAlong fs (fs.origin path) (Path.steps path)) fs

/-- Writes one node. Contents are written only once nobody else can read them. -/
def Disk.writeNode (l : Location) : Node → IO Unit
  | .directory mode => do
    IO.FS.createDirAll (Disk.place l)
    IO.Prim.setAccessRights (Disk.place l) mode.toNat.toUInt32
  | .file mode contents => do
    let handle ← IO.FS.Handle.mk (Disk.place l) .write
    IO.Prim.setAccessRights (Disk.place l) mode.toNat.toUInt32
    handle.write contents.toByteArray
    handle.flush

/-- Writes the nodes that differ, outer ones first. -/
def Disk.write (old new : FileSystem) : IO Unit := do
  let changed := new.nodes.filter fun entry => old.find? entry.1 ≠ some entry.2
  for (l, node) in changed.mergeSort fun a b => a.1.length ≤ b.1.length do
    Disk.writeNode l node

/-- Shows what a command has written, after the disk has been brought up to date. -/
def Disk.present (old : FileSystem) (console : Console) : IO Unit := do
  Disk.write old console.files
  let out ← IO.getStdout
  out.putStr (String.ofList console.output)
  out.flush

def Disk.report (color : Bool) (e : KeyError) : IO UInt32 := do
  IO.eprintln (String.ofList (Paint.boldRed.apply color "Error:".toList) ++ " " ++ e.message)
  return 1

def usage : String :=
  "Usage: ssh-keypair [-v] <generate|probe|fingerprint|inspect|authorize|list>"

/-- The words for refused arguments, and the exit code. -/
def CommandLine.UsageError.notice : UsageError → String × UInt32
  | .help => (usage, 0)
  | .helpForNoArguments => (usage, 2)
  | .version => ("ssh-keypair 0.1.0", 0)
  | .unknownArgument => ("error: unexpected argument", 2)
  | .invalidValue => ("error: a value is required for an option", 2)
  | .tooManyValues => ("error: a flag takes no value", 2)
  | .argumentConflict => ("error: an argument cannot be used multiple times", 2)
  | .missingRequiredArgument => ("error: a required argument was not provided", 2)
  | .invalidSubcommand => ("error: unrecognized subcommand", 2)
  | .missingSubcommand => ("error: a subcommand is required", 2)

def runCommand (command : Command) : IO UInt32 := do
  let entropy := Entropy.ofSeed (← IO.getRandomBytes 64).toList
  let home := (← IO.getEnv "HOME").map String.toList
  let color ← (← IO.getStdout).isTty
  let env : Environment := {
    home
    color
    generator := BuiltIn.generator BuiltIn.standard (entropy.branch 0)
    check := (Entropy.word.run (entropy.branch 1)).1 }
  let files ← Disk.read (footprint home command)
  match (command.start env).run.run ⟨files, []⟩ with
  | (.error e, console) =>
    Disk.present files console
    Disk.report color e
  | (.ok none, console) =>
    Disk.present files console
    return 0
  | (.ok (some question), console) =>
    Disk.present files console
    let answer ← (← IO.getStdin).getLine
    match (Generate.answered env question answer.toList).run.run ⟨console.files, []⟩ with
    | (.error e, after) =>
      Disk.present console.files after
      Disk.report color e
    | (.ok _, after) =>
      Disk.present console.files after
      return 0

end SshKeys

def main (arguments : List String) : IO UInt32 := do
  match SshKeys.CommandLine.parse (arguments.map String.toList) with
  | .ok invocation => SshKeys.runCommand invocation.command
  | .error e =>
    let (notice, code) := e.notice
    if code = 0 then IO.println notice else IO.eprintln notice
    return code
