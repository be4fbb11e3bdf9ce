import SshKeys.Armor
import SshKeys.CommandLine.Console
import SshKeys.Proofs.Except

/-!
What the steps of a command do to files and output.

`Keeps` is for what holds of the files throughout a command, whether it succeeds
or fails. There is one rule for each kind of step.
-/

namespace SshKeys.CommandLine.Run

variable {α : Type} {s : Console}

theorem run_lift_of_ok {a : α} {result : Except KeyError α} (h : result = .ok a) (s : Console) :
    (liftM result : Run α).run.run s = (.ok a, s) := by
  rw [h]
  rfl

theorem run_look_of_ok {a : α} {see : FileSystem → Except KeyError α} (h : see s.files = .ok a) :
    (look see).run.run s = (.ok a, s) := by
  have hget : (get : Run Console).run.run s = (.ok s, s) := rfl
  rw [look, run_run_bind_of_ok hget, h]
  rfl

theorem run_writeLines (ls : List Text) (s : Console) :
    (writeLines ls).run.run s =
      (.ok (), { s with output := s.output ++ Armor.unlines ls }) := by
  induction ls generalizing s with
  | nil =>
      rw [Armor.unlines, List.flatMap_nil, List.append_nil]
      rfl
  | cons l ls ih =>
      have hline : (writeLine l).run.run s =
          (.ok (), { s with output := s.output ++ (l ++ ['\n']) }) := rfl
      rw [writeLines, run_run_bind_of_ok hline, ih, Armor.unlines, Armor.unlines, List.flatMap_cons,
        List.append_assoc]

/-! ### What holds of the files throughout -/

variable {β : Type} {inv : FileSystem → Prop} {x : Run α} {f : α → Run β} {post : α → Prop}
  {post' : β → Prop}

/-- Files with `inv` have it afterwards too, and what is returned, if anything is, has `post`. -/
def Keeps (inv : FileSystem → Prop) (x : Run α) (post : α → Prop) : Prop :=
  ∀ s, inv s.files →
    inv (x.run.run s).2.files ∧ ∀ a, (x.run.run s).1 = .ok a → post a

namespace Keeps

protected theorem pure {a : α} (h : post a) : Keeps inv (pure a) post := by
  intro s hs
  refine ⟨hs, ?_⟩
  rintro _ ⟨⟩
  exact h

protected theorem bind (h : Keeps inv x post) (hf : ∀ a, post a → Keeps inv (f a) post') :
    Keeps inv (x >>= f) post' := by
  intro s hs
  obtain ⟨hinv, hpost⟩ := h s hs
  rw [run_run_bind]
  rcases hrun : x.run.run s with ⟨e | a, s'⟩
  · rw [hrun] at hinv
    exact ⟨hinv, nofun⟩
  · rw [hrun] at hinv hpost
    exact hf a (hpost a rfl) s' hinv

protected theorem get : Keeps inv get fun s => inv s.files := by
  intro s hs
  refine ⟨hs, ?_⟩
  rintro _ ⟨⟩
  exact hs

theorem lift (result : Except KeyError α) : Keeps inv (liftM result) (result = .ok ·) := by
  intro s hs
  cases result with
  | error e => exact ⟨hs, nofun⟩
  | ok a =>
      refine ⟨hs, ?_⟩
      rintro _ ⟨⟩
      rfl

theorem write (t : Text) : Keeps inv (Run.write t) fun _ => True :=
  fun _ hs => ⟨hs, fun _ _ => trivial⟩

theorem writeLine (t : Text) : Keeps inv (Run.writeLine t) fun _ => True :=
  write (t ++ ['\n'])

theorem writeLines (ls : List Text) : Keeps inv (Run.writeLines ls) fun _ => True := by
  intro s hs
  rw [run_writeLines]
  exact ⟨hs, fun _ _ => trivial⟩

/-- A change of the files is the one step that has to be looked at. -/
theorem change {c : FileSystem.Change α} (h : ∀ fs, inv fs → inv (c.run.run fs).2) :
    Keeps inv (Run.change c) fun _ => True := by
  intro s hs
  have hrun : ((Run.change c).run.run s).2.files = (c.run.run s.files).2 := by
    have hget : (get : Run Console).run.run s = (.ok s, s) := rfl
    rw [Run.change, run_run_bind_of_ok hget]
    rcases c.run.run s.files with ⟨e | a, fs'⟩ <;> rfl
  rw [hrun]
  exact ⟨h s.files hs, fun _ _ => trivial⟩

end Keeps

end SshKeys.CommandLine.Run
