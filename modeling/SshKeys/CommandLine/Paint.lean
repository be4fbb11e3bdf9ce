import SshKeys.Text.Basic

/-!
Colours on a terminal. A painted text stands between the sequence that switches
its colours on and the one that resets them. A reset inside the text would end
the colours early, so they are switched on again after it.
-/

namespace SshKeys.CommandLine

/-- The sequence with these parameters, separated by semicolons. -/
def graphics (parameters : String) : Text :=
  ("\x1b[" ++ parameters ++ "m").toList

/-- Switches the colours on again after every reset. -/
def keepOn (on : Text) : Text → Text
  | '\x1b' :: '[' :: '0' :: 'm' :: rest => '\x1b' :: '[' :: '0' :: 'm' :: (on ++ keepOn on rest)
  | c :: rest => c :: keepOn on rest
  | [] => []

inductive Paint where
  | bold
  | dimmed
  | red
  | green
  | yellow
  | cyan
  | boldRed
  | boldYellow
  | boldCyan
  deriving DecidableEq, Repr

def Paint.parameters : Paint → String
  | .bold => "1"
  | .dimmed => "2"
  | .red => "31"
  | .green => "32"
  | .yellow => "33"
  | .cyan => "36"
  | .boldRed => "1;31"
  | .boldYellow => "1;33"
  | .boldCyan => "1;36"

/-- A text in colours, or as it is. -/
def Paint.apply (paint : Paint) (color : Bool) (t : Text) : Text :=
  if color then
    let on := graphics paint.parameters
    on ++ keepOn on t ++ graphics "0"
  else t

end SshKeys.CommandLine
