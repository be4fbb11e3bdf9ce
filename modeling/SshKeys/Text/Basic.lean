import SshKeys.Bytes

/-!
Text as a list of characters, and the ways in which it is cut.

Everything that is parsed here is cut at blanks: into words, into lines whose
ends are trimmed, or at the first blank. A blank is a character with the
Unicode property White_Space, which is a larger set than the one the core
library tests for. The UTF-8 form is kept in step with the core library's, so
`ofUtf8?` accepts exactly the octet strings that `utf8` produces.
-/

namespace SshKeys

/-- A text, character by character. -/
abbrev Text := List Char

namespace Text

/-! ### UTF-8 -/

/-- The UTF-8 form of a text. -/
def utf8 (t : Text) : Bytes :=
  t.flatMap String.utf8EncodeChar

/-- The text whose UTF-8 form is `b`, if there is one. -/
def ofUtf8? (b : Bytes) : Option Text :=
  b.toByteArray.utf8Decode?.map Array.toList

@[simp] theorem utf8_nil : utf8 [] = [] := rfl

@[simp] theorem utf8_append (s t : Text) : utf8 (s ++ t) = utf8 s ++ utf8 t := by
  simp [utf8]

@[simp] theorem ofUtf8?_utf8 (t : Text) : ofUtf8? (utf8 t) = some t := by
  have h : (utf8 t).toByteArray = List.utf8Encode t := rfl
  simp [ofUtf8?, h]

theorem eq_utf8_of_ofUtf8? {b : Bytes} {t : Text} (h : ofUtf8? b = some t) : b = utf8 t := by
  obtain ⟨a, ha, rfl⟩ := Option.map_eq_some_iff.1 h
  have hb := ByteArray.utf8Encode_get_utf8Decode? (b := b.toByteArray) (h := by simp [ha])
  simp only [ha, Option.get_some] at hb
  have := congrArg (fun x => x.data.toList) hb
  simpa [List.utf8Encode, utf8] using this.symm

/-! ### Blanks -/

/-- The characters with the property White_Space. -/
def isBlank (c : Char) : Bool :=
  let n := c.toNat
  (0x09 ≤ n && n ≤ 0x0D) || n == 0x20 || n == 0x85 || n == 0xA0 || n == 0x1680 ||
    (0x2000 ≤ n && n ≤ 0x200A) || n == 0x2028 || n == 0x2029 || n == 0x202F ||
    n == 0x205F || n == 0x3000

def trimLeft (t : Text) : Text :=
  t.dropWhile isBlank

def trimRight (t : Text) : Text :=
  (t.reverse.dropWhile isBlank).reverse

/-- The text without the blanks at its two ends. -/
def trim (t : Text) : Text :=
  t.trimLeft.trimRight

@[simp] theorem trim_nil : trim [] = [] := rfl

/-! ### Words and lines -/

/-- The maximal runs of characters that are not blank. -/
def words (t : Text) : List Text :=
  (t.splitOnP isBlank).filter (fun w => !w.isEmpty)

/-- The part before the first blank, and the part after that blank if there is one. -/
def cutAtBlank (t : Text) : Text × Option Text :=
  match t.span (fun c => !isBlank c) with
  | (before, []) => (before, none)
  | (before, _ :: after) => (before, some after)

/-- A line that a newline ended, without the carriage return that may stand before it. -/
def dropReturn (line : Text) : Text :=
  if line.getLast? = some '\r' then line.dropLast else line

/-- The lines of a text. A newline ends a line; what follows the last one is a line only if it
is not empty, and keeps a carriage return at its end. -/
def lines (t : Text) : List Text :=
  let pieces := t.splitOn '\n'
  pieces.dropLast.map dropReturn ++ (pieces.getLast?.toList.filter fun l => !l.isEmpty)

/-- The texts one after the other, with `separator` between any two. -/
def join (separator : Text) (parts : List Text) : Text :=
  separator.intercalate parts

/-- Whether `part` occurs somewhere in `t`. -/
def contains : (t part : Text) → Bool
  | [], part => part.isEmpty
  | c :: rest, part => part.isPrefixOf (c :: rest) || contains rest part

theorem contains_iff {t part : Text} : contains t part = true ↔ part <:+: t := by
  induction t with
  | nil => simp [contains]
  | cons c rest ih => simp [contains, ih, List.infix_cons_iff]

/-! ### Numbers -/

/-- The digits of `n` in base ten. -/
def decimal (n : Nat) : String :=
  String.ofList (Nat.toDigits 10 n)

/-- A hexadecimal digit, lower case. -/
def hexDigit (n : Nat) : Char :=
  Nat.digitChar (n % 16)

/-- An octet as two hexadecimal digits. -/
def hexOctet (x : UInt8) : String :=
  String.ofList [hexDigit (x.toNat / 16), hexDigit x.toNat]

end Text

end SshKeys
