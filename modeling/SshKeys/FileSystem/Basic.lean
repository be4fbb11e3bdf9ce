import SshKeys.FileSystem.Path

/-!
A file system of regular files and directories with permission bits.

The state is a table from locations to nodes. Everything that changes it is an
`Action`, and an action that fails changes nothing. `find?_put` is the one fact
about the table that all others rest on.

There are no links, no owners and no permission failures: whoever acts here may
do everything.
-/

namespace SshKeys

/-- The twelve permission bits. -/
abbrev Mode := BitVec 12

namespace FileSystem

/-- The bits for owner, group and others to read, write and search. -/
def accessBits : Mode := 0o777

/-- The bit that a directory hands down to the directories made in it. -/
def setGroupBit : Mode := 0o2000

/-- Where a node is: the names of the steps from the root, the last one first. -/
abbrev Location := List Text

inductive Node where
  | file (mode : Mode) (contents : Bytes)
  | directory (mode : Mode)
  deriving DecidableEq, Repr

def Node.mode : Node → Mode
  | .file mode _ => mode
  | .directory mode => mode

def Node.withMode : Node → Mode → Node
  | .file _ contents, mode => .file mode contents
  | .directory _, mode => .directory mode

/-- Why an access fails. -/
inductive Fault where
  | notFound
  | alreadyExists
  | notDirectory
  | isDirectory
  /-- only a regular file can be copied -/
  | notRegular
  | notUtf8
  /-- no name holds a NUL -/
  | nulInPath
  /-- of a name, or of a whole path -/
  | tooLong
  deriving DecidableEq, Repr

def Fault.message : Fault → String
  | .notFound => "No such file or directory (os error 2)"
  | .alreadyExists => "File exists (os error 17)"
  | .notDirectory => "Not a directory (os error 20)"
  | .isDirectory => "Is a directory (os error 21)"
  | .notRegular => "the source path is neither a regular file nor a symlink to a regular file"
  | .notUtf8 => "stream did not contain valid UTF-8"
  | .nulInPath => "file name contained an unexpected NUL byte"
  | .tooLong => "File name too long (os error 36)"

end FileSystem

open FileSystem

structure FileSystem where
  nodes : List (Location × Node)
  /-- the bits that a new node does not get -/
  umask : Mode
  workingDirectory : Location

namespace FileSystem

/-- Nothing but the root directory, which is the working directory. -/
def empty : FileSystem :=
  ⟨[([], .directory 0o755)], 0o022, []⟩

/-! ### The table -/

def find? (fs : FileSystem) (l : Location) : Option Node :=
  fs.nodes.lookup l

def put (fs : FileSystem) (l : Location) (node : Node) : FileSystem :=
  { fs with nodes := (l, node) :: fs.nodes.filter fun entry => entry.1 ≠ l }

theorem lookup_filter_ne {nodes : List (Location × Node)} {l l' : Location} (h : l' ≠ l) :
    (nodes.filter fun entry => entry.1 ≠ l).lookup l' = nodes.lookup l' := by
  induction nodes with
  | nil => rfl
  | cons entry nodes ih =>
    obtain ⟨k, node⟩ := entry
    by_cases hk : k = l
    · subst hk
      have : (l' == k) = false := by simpa using h
      simpa [List.lookup_cons, this] using ih
    · simp_all [List.lookup_cons]

theorem find?_put (fs : FileSystem) (l l' : Location) (node : Node) :
    (fs.put l node).find? l' = if l' = l then some node else fs.find? l' := by
  by_cases h : l' = l
  · simp [find?, put, h]
  · have hb : (l' == l) = false := by simpa using h
    rw [if_neg h, find?, put]
    simp only [List.lookup_cons, hb]
    exact lookup_filter_ne h

@[simp] theorem find?_put_self (fs : FileSystem) (l : Location) (node : Node) :
    (fs.put l node).find? l = some node := by
  simp [find?_put]

@[simp] theorem umask_put (fs : FileSystem) (l : Location) (node : Node) :
    (fs.put l node).umask = fs.umask := rfl

@[simp] theorem workingDirectory_put (fs : FileSystem) (l : Location) (node : Node) :
    (fs.put l node).workingDirectory = fs.workingDirectory := rfl

/-! ### Walking -/

/-- One step from a location. There is no way up from the root. -/
def follow (l : Location) (name : Text) : Location :=
  if name = Path.here then l else if name = Path.parent then l.tail else name :: l

/-- Octets in the longest name of a node. -/
def longestName : Nat :=
  255

/-- Octets in the longest path. -/
def longestPath : Nat :=
  4095

/-- Follows steps. Every step is taken from a directory; the last one may lead to nothing. -/
def walk (fs : FileSystem) : Location → List Text → Except Fault Location
  | l, [] => .ok l
  | l, name :: rest =>
    match fs.find? l with
    | none => .error .notFound
    | some (.file _ _) => .error .notDirectory
    | some (.directory _) =>
      if longestName < name.utf8.length then .error .tooLong else fs.walk (follow l name) rest

def origin (fs : FileSystem) (path : Text) : Location :=
  if Path.isAbsolute path then [] else fs.workingDirectory

/-- Where the given steps of a path lead. The empty path leads nowhere. -/
def reach (fs : FileSystem) (path : Text) (names : List Text) : Except Fault Location :=
  if '\x00' ∈ path then .error .nulInPath
  else if longestPath < path.utf8.length then .error .tooLong
  else if path = [] then .error .notFound
  else fs.walk (fs.origin path) names

/-- The location that a path names, where a node may or may not be. -/
def locate (fs : FileSystem) (path : Text) : Except Fault Location :=
  fs.reach path (Path.stepsInto path)

/-! ### Looking -/

def stat (fs : FileSystem) (path : Text) : Except Fault Node := do
  match fs.find? (← fs.locate path) with
  | some node => return node
  | none => throw .notFound

/-- Whether a path names a node. -/
def holds (fs : FileSystem) (path : Text) : Bool :=
  (fs.stat path).isOk

def isDirectory (fs : FileSystem) (path : Text) : Bool :=
  match fs.stat path with
  | .ok (.directory _) => true
  | _ => false

def read (fs : FileSystem) (path : Text) : Except Fault Bytes := do
  match ← fs.stat path with
  | .file _ contents => return contents
  | .directory _ => throw .isDirectory

def readText (fs : FileSystem) (path : Text) : Except Fault Text := do
  match Text.ofUtf8? (← fs.read path) with
  | some t => return t
  | none => throw .notUtf8

/-! ### Changing -/

/-- One change. -/
inductive Action where
  /-- the directory itself; those above it are there -/
  | makeDirectory (path : Text)
  /-- empties the file, or creates it with `mode` less the umask -/
  | openTruncated (path : Text) (mode : Mode)
  /-- creates the file if it is missing -/
  | openAppending (path : Text)
  | append (path : Text) (data : Bytes)
  | setMode (path : Text) (mode : Mode)
  /-- contents and mode, also onto a file that is there -/
  | copy (source target : Text)
  deriving DecidableEq, Repr

def setMode (fs : FileSystem) (path : Text) (mode : Mode) : Except Fault FileSystem := do
  let l ← fs.locate path
  match fs.find? l with
  | some node => return fs.put l (node.withMode mode)
  | none => throw .notFound

def makeDirectory (fs : FileSystem) (path : Text) : Except Fault FileSystem := do
  let l ← fs.reach path (Path.steps path)
  if (fs.find? l).isSome then
    throw .alreadyExists
  let inherited := match fs.find? l.tail with
    | some above => above.mode &&& setGroupBit
    | none => 0
  return fs.put l (.directory ((accessBits &&& ~~~fs.umask) ||| inherited))

def openTruncated (fs : FileSystem) (path : Text) (mode : Mode) : Except Fault FileSystem := do
  let l ← fs.locate path
  match fs.find? l with
  | none => return fs.put l (.file (mode &&& ~~~fs.umask) [])
  | some (.file old _) => return fs.put l (.file old [])
  | some (.directory _) => throw .isDirectory

def openAppending (fs : FileSystem) (path : Text) : Except Fault FileSystem := do
  let l ← fs.locate path
  match fs.find? l with
  | none => return fs.put l (.file (0o666 &&& ~~~fs.umask) [])
  | some (.file _ _) => return fs
  | some (.directory _) => throw .isDirectory

def append (fs : FileSystem) (path : Text) (data : Bytes) : Except Fault FileSystem := do
  let l ← fs.locate path
  match fs.find? l with
  | none => throw .notFound
  | some (.file mode contents) => return fs.put l (.file mode (contents ++ data))
  | some (.directory _) => throw .isDirectory

def copy (fs : FileSystem) (source target : Text) : Except Fault FileSystem := do
  match ← fs.stat source with
  | .directory _ => throw .notRegular
  | .file mode contents =>
    let l ← fs.locate target
    match fs.find? l with
    | some (.directory _) => throw .isDirectory
    | _ => return fs.put l (.file mode contents)

/-- The state after an action. -/
def apply (fs : FileSystem) : Action → Except Fault FileSystem
  | .makeDirectory path => fs.makeDirectory path
  | .openTruncated path mode => fs.openTruncated path mode
  | .openAppending path => fs.openAppending path
  | .append path data => fs.append path data
  | .setMode path mode => fs.setMode path mode
  | .copy source target => fs.copy source target

/-- The states that a row of actions goes through, up to the first that fails. -/
def trace (fs : FileSystem) : List Action → List FileSystem
  | [] => []
  | a :: more =>
    match fs.apply a with
    | .ok next => next :: next.trace more
    | .error _ => []

end FileSystem

end SshKeys
