import SshKeys.Proofs.AuthorizedKeys.Reading
import SshKeys.Proofs.FileSystem.Change

/-!
Listing goes line by line.

What is listed of a text is what is listed of its pieces between newlines, because
a line is trimmed before anything is looked for in it (`managedKeys_eq`). So texts
that are cut at a newline are listed one after the other, and a directory lists
what the text of its file does.
-/

namespace SshKeys.AuthorizedKeys

open FileSystem

/-! ### Lines of a text -/

theorem managedKey?_congr {line line' : Text} (h : line.trim = line'.trim) :
    managedKey? line = managedKey? line' := by
  rw [managedKey?, managedKey?, h]

/-- Carriage returns and a last line that is empty make no difference. -/
theorem managedKeys_eq (text : Text) :
    managedKeys text = (text.splitOn '\n').filterMap managedKey? := by
  obtain ⟨front, last, hsplit⟩ : ∃ front last, text.splitOn '\n' = front ++ [last] := by
    have := List.dropLast_append_getLast (List.splitOn_ne_nil '\n' text)
    exact ⟨_, _, this.symm⟩
  have hreturn (line : Text) : managedKey? (Text.dropReturn line) = managedKey? line :=
    managedKey?_congr (Text.trim_dropReturn line)
  rw [managedKeys, Text.lines, hsplit, List.dropLast_concat, List.getLast?_concat,
    List.filterMap_append, List.filterMap_append, List.filterMap_map]
  congr 1
  · exact congrArg (List.filterMap · front) (funext hreturn)
  · cases last with
    | nil => rfl
    | cons c last => rfl

/-- A newline stands between what is listed before it and what is listed behind. -/
theorem managedKeys_append_cons (text rest : Text) :
    managedKeys (text ++ '\n' :: rest) = managedKeys text ++ managedKeys rest := by
  rw [managedKeys_eq, managedKeys_eq, managedKeys_eq, List.splitOn_append_cons_self,
    List.filterMap_append]

theorem managedKeys_concat (text : Text) : managedKeys (text ++ ['\n']) = managedKeys text := by
  rw [managedKeys_append_cons]
  exact List.append_nil _

theorem managedKeys_of_not_mem {line : Text} (h : '\n' ∉ line) :
    managedKeys line = (managedKey? line).toList := by
  rw [managedKeys_eq, List.splitOn_eq_singleton h]
  cases hkey : managedKey? line <;> simp [hkey]

/-! ### Files -/

variable {fs fs' fs'' : FileSystem} {directory directory' directory'' text front back : Text}
  {keys : List ListedKey}

theorem list_eq_ok_iff :
    list fs directory = .ok keys ↔
      fs.holds (path directory) = false ∧ keys = [] ∨
        ∃ mode text, fs.stat (path directory) = .ok (.file mode (Text.utf8 text)) ∧
          keys = managedKeys text := by
  rw [list]
  cases hholds : fs.holds (path directory) with
  | false =>
      constructor
      · intro h
        cases h
        exact .inl ⟨rfl, rfl⟩
      · rintro (⟨-, rfl⟩ | ⟨mode, text, hstat, -⟩)
        · rfl
        · rw [holds, hstat] at hholds
          cases hholds
  | true =>
      show (do return managedKeys (← (fs.readText (path directory)).mapError KeyError.io)) = _ ↔ _
      simp only [bind_eq_ok_iff, mapError_eq_ok_iff, readText_eq_ok_iff]
      constructor
      · rintro ⟨text, ⟨mode, hstat⟩, h⟩
        cases h
        exact .inr ⟨mode, text, hstat, rfl⟩
      · rintro (⟨hfalse, -⟩ | ⟨mode, text, hstat, rfl⟩)
        · cases hfalse
        · exact ⟨text, ⟨mode, hstat⟩, rfl⟩

/-- The text in the file of a directory. No text is in a file that is not there. -/
inductive HoldsText (fs : FileSystem) (directory : Text) : Text → Prop
  | missing (h : fs.holds (path directory) = false) : HoldsText fs directory []
  | file (mode : Mode) {text : Text} (h : fs.stat (path directory) = .ok (.file mode text.utf8)) :
      HoldsText fs directory text

theorem HoldsText.list_eq (h : HoldsText fs directory text) :
    list fs directory = .ok (managedKeys text) := by
  cases h with
  | missing h => exact list_eq_ok_iff.2 (.inl ⟨h, rfl⟩)
  | file mode h => exact list_eq_ok_iff.2 (.inr ⟨mode, text, h, rfl⟩)

theorem marker_infix_of_mem_managedKeys {key : ListedKey} (h : key ∈ managedKeys text) :
    marker <:+: key.comment := by
  obtain ⟨line, -, hkey⟩ := List.mem_filterMap.1 h
  obtain ⟨-, -, -, entry, -, hmarker, rfl⟩ := managedKey?_eq_some_iff.1 hkey
  exact hmarker

theorem marker_infix_of_list_eq (h : list fs directory = .ok keys) :
    ∀ key ∈ keys, marker <:+: key.comment := by
  rcases list_eq_ok_iff.1 h with ⟨-, rfl⟩ | ⟨mode, text, -, rfl⟩
  · nofun
  · exact fun key => marker_infix_of_mem_managedKeys

/-- A file whose text is cut at a newline lists what a file with the first part lists, and then what
a file with the second part lists, wherever the three files are and whatever is in them. All that is
ever listed has the marker in its comment. -/
theorem list_cut_at_newline (h : HoldsText fs directory (front ++ '\n' :: back))
    (hfront : HoldsText fs' directory' front) (hback : HoldsText fs'' directory'' back) :
    (∃ keys keys', list fs' directory' = .ok keys ∧ list fs'' directory'' = .ok keys' ∧
      list fs directory = .ok (keys ++ keys')) ∧
    ∀ fs directory keys, list fs directory = .ok keys → ∀ key ∈ keys, marker <:+: key.comment := by
  refine ⟨⟨managedKeys front, managedKeys back, hfront.list_eq, hback.list_eq, ?_⟩,
    fun _ _ _ => marker_infix_of_list_eq⟩
  rw [h.list_eq, managedKeys_append_cons]

/-- Lines that are passed over at the cut: a note before it, and a key behind it that is not
managed. The first part ends in a carriage return. -/
theorem list_cut_at_newline_passed_over :
    let managed := sampleKey ++ ' ' :: marker
    let front := managed ++ "\n# ssh-keypair\r".toList
    let back := sampleKey ++ '\n' :: managed
    let fs := ((FileSystem.empty.put ["d".toList] (.directory 0o755)).put
      ["authorized_keys".toList, "d".toList] (.file 0o600 (front ++ '\n' :: back).utf8)).put
      ["authorized_keys".toList] (.file 0o644 front.utf8)
    let fs' := FileSystem.empty.put ["authorized_keys".toList] (.file 0o600 back.utf8)
    HoldsText fs "d".toList (front ++ '\n' :: back) ∧ HoldsText fs [] front ∧
      HoldsText fs' [] back ∧
      ∃ key key', list fs [] = .ok [key] ∧ list fs' [] = .ok [key'] ∧
        list fs "d".toList = .ok [key, key'] ∧ marker <:+: key.comment := by
  intro managed front back fs fs'
  have hwhole : HoldsText fs "d".toList (front ++ '\n' :: back) :=
    .file 0o600 (by decide +kernel)
  have hfront : HoldsText fs [] front := .file 0o644 (by decide +kernel)
  have hback : HoldsText fs' [] back := .file 0o600 (by decide +kernel)
  obtain ⟨⟨keys, keys', hkeys, hkeys', hlist⟩, hmarker⟩ := list_cut_at_newline hwhole hfront hback
  have hone : (list fs []).toOption.map List.length = some 1 := by decide +kernel
  have hone' : (list fs' []).toOption.map List.length = some 1 := by decide +kernel
  rw [hkeys] at hone
  rw [hkeys'] at hone'
  obtain ⟨key, rfl⟩ := List.length_eq_one_iff.1 (Option.some.inj hone)
  obtain ⟨key', rfl⟩ := List.length_eq_one_iff.1 (Option.some.inj hone')
  exact ⟨hwhole, hfront, hback, key, key', hkeys, hkeys', hlist,
    hmarker _ _ _ hkeys key List.mem_cons_self⟩

end SshKeys.AuthorizedKeys
