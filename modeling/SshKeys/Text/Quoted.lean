import SshKeys.Text.Basic

/-!
Texts between quotation marks, and the redacted descriptions of values that
hold secrets.

Two quoted forms are written: `shown`, for descriptions, and `json`, for JSON
documents. They escape different characters.
-/

namespace SshKeys.Text.Quoted

/-- A number in hexadecimal digits, at least `width` of them. -/
def hexadecimal (width n : Nat) : Text :=
  let digits := Nat.toDigits 16 n
  List.replicate (width - digits.length) '0' ++ digits

/-- A character inside a description. Control characters are written by their number. -/
def shownChar (c : Char) : Text :=
  match c with
  | '"' => ['\\', '"']
  | '\\' => ['\\', '\\']
  | '\t' => ['\\', 't']
  | '\n' => ['\\', 'n']
  | '\r' => ['\\', 'r']
  | '\x00' => ['\\', '0']
  | c =>
    if c.toNat < 0x20 ∨ (0x7F ≤ c.toNat ∧ c.toNat < 0xA0) then
      ['\\', 'u', '\x7b'] ++ hexadecimal 1 c.toNat ++ ['\x7d']
    else [c]

/-- A text as a description shows it. -/
def shown (t : Text) : String :=
  String.ofList ('"' :: t.flatMap shownChar ++ ['"'])

/-- A character inside a JSON string: quotation mark, backslash and the controls below the space
are escaped, the others stand for themselves. -/
def jsonChar (c : Char) : Text :=
  match c with
  | '"' => ['\\', '"']
  | '\\' => ['\\', '\\']
  | '\x08' => ['\\', 'b']
  | '\t' => ['\\', 't']
  | '\n' => ['\\', 'n']
  | '\x0c' => ['\\', 'f']
  | '\r' => ['\\', 'r']
  | c => if c.toNat < 0x20 then ['\\', 'u'] ++ hexadecimal 4 c.toNat else [c]

def json (t : Text) : String :=
  String.ofList ('"' :: t.flatMap jsonChar ++ ['"'])

/-! ### Descriptions -/

/-- What stands for a secret. -/
def redacted : String :=
  shown "[REDACTED]".toList

/-- Octets in base ten. -/
def octets (b : Bytes) : String :=
  "[" ++ ", ".intercalate (b.map fun x => decimal x.toNat) ++ "]"

/-- A description: the name of a form, and its parts with their names. -/
def description (name : String) (parts : List (String × String)) : String :=
  name ++ " \x7b " ++ ", ".intercalate (parts.map fun p => p.1 ++ ": " ++ p.2) ++ " \x7d"

end SshKeys.Text.Quoted
