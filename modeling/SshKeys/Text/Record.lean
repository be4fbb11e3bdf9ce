import SshKeys.Text.Quoted

/-!
JSON documents: a record of named texts, or a list of such records. Names keep
the order in which they are given.
-/

namespace SshKeys.Text

/-- Named texts. -/
abbrev Record := List (String × Text)

namespace Record

def member (between : String) (m : String × Text) : String :=
  Quoted.json m.1.toList ++ between ++ Quoted.json m.2

/-- On one line, without blanks. -/
def compact (r : Record) : String :=
  "\x7b" ++ ",".intercalate (r.map (member ":")) ++ "\x7d"

/-- One member a line, two blanks deeper than `margin`. -/
def indented (margin : String) (r : Record) : String :=
  "\x7b\n" ++ ",\n".intercalate (r.map fun m => margin ++ "  " ++ member ": " m) ++ "\n" ++
    margin ++ "\x7d"

def pretty (r : Record) : String :=
  r.indented ""

/-- A list of records, each two blanks deeper than the brackets. -/
def prettyList : List Record → String
  | [] => "[]"
  | records => "[\n" ++ ",\n".intercalate (records.map fun r => "  " ++ r.indented "  ") ++ "\n]"

end Record

end SshKeys.Text
