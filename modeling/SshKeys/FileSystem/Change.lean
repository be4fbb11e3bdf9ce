import SshKeys.Error

/-!
Changes to a file system one after the other. The first one that fails ends the
run, and the state keeps what was done before it.
-/

namespace SshKeys.FileSystem

/-- A run that changes a file system and may end early. -/
abbrev Change := ExceptT KeyError (StateM FileSystem)

namespace Change

/-- Performs one action. -/
def act (a : Action) : Change Unit := do
  match (← get).apply a with
  | .ok fs => set fs
  | .error fault => throw (.io fault)

theorem run_act (a : Action) (fs : FileSystem) :
    (act a).run.run fs =
      match fs.apply a with
      | .ok next => (.ok (), next)
      | .error fault => (.error (.io fault), fs) := by
  show (match fs.apply a with
    | .ok next => set next
    | .error fault => throw (.io fault) : Change Unit).run.run fs = _
  split <;> rfl

/-- Performs actions in order. -/
def actAll : List Action → Change Unit
  | [] => return
  | a :: more => do
    act a
    actAll more

/-- Something seen in the present state. -/
def look {α : Type} (see : FileSystem → Except Fault α) : Change α := do
  match see (← get) with
  | .ok x => return x
  | .error fault => throw (.io fault)

/-- Makes a directory. If one is there already that is as good. -/
def settle (path : Text) : Change Unit := do
  match (← get).makeDirectory path with
  | .ok fs => set fs
  | .error fault =>
    unless (← get).isDirectory path do
      throw (.io fault)

/-- Makes the first directory of the list. When what is above it is missing, makes the rest of the
list first, which holds the directories above it, nearest first. -/
def settleUnder : List Text → Change Unit
  | [] => return
  | path :: above => do
    match (← get).makeDirectory path with
    | .error .notFound =>
      settleUnder above
      settle path
    | _ => settle path

/-- Makes a directory and all that is missing above it. -/
def settleAll (path : Text) : Change Unit :=
  if path = [] then return else settleUnder (path :: Path.ancestors path)

end Change

end SshKeys.FileSystem
