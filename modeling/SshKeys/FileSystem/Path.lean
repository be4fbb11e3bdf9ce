import SshKeys.Text.Basic

/-!
Path texts. A path is walked step by step from the root, if it begins with a
slash, or from the working directory.
-/

namespace SshKeys.Path

/-- The path of `name` inside `directory`. -/
def join (directory name : Text) : Text :=
  if directory = [] ∨ directory.getLast? = some '/' then directory ++ name
  else directory ++ '/' :: name

def isAbsolute (path : Text) : Bool :=
  path.head? == some '/'

/-- The names between the slashes. -/
def steps (path : Text) : List Text :=
  (path.splitOn '/').filter fun name => !name.isEmpty

def here : Text :=
  ['.']

def parent : Text :=
  ['.', '.']

/-- The steps to what a path names. A slash at the end asks for a directory. -/
def stepsInto (path : Text) : List Text :=
  if path.getLast? = some '/' then steps path ++ [here] else steps path

/-- The path with the given steps. -/
def ofSteps (absolute : Bool) (names : List Text) : Text :=
  let relative := Text.join ['/'] names
  if absolute then '/' :: relative else relative

/-- The paths above a path, the nearest first, down to its first step. Steps that stay in place
count for nothing. -/
def ancestors (path : Text) : List Text :=
  let names := (steps path).filter (· ≠ here)
  (List.range' 1 (names.length - 1)).reverse.map fun count =>
    ofSteps (isAbsolute path) (names.take count)

end SshKeys.Path
