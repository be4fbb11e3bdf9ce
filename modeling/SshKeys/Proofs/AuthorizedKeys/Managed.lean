import SshKeys.AuthorizedKeys.Managed
import SshKeys.Proofs.Except
import SshKeys.Proofs.Text.Pieces

/-!
What becomes of a text that is made into a managed entry.

The words of the text decide: those up to the first one that begins like a key
type stand before the key, and `ofText_eq_ok_iff` says what the entry is made
of. So a proof about entries starts from words and not from the passes over
them.
-/

namespace SshKeys.AuthorizedKeys

/-! ### The words of an entry -/

/-- The options of an entry with these words before its key. -/
def entryOptions : List Text → Text
  | [] => defaultOptions
  | first :: _ => restrictedOptions first

/-- The line of an entry with these words. -/
def entryLine (before : List Text) (keyType data : Text) (comment : List Text) : Text :=
  Text.join [' '] (entryOptions before :: keyType :: data :: markedWords comment)

/-- The words of a text that has a key in it: those before the key begin in other ways than key
types do. -/
structure IsKeyWords (words before : List Text) (keyType data : Text) (comment : List Text) :
    Prop where
  words : words = before ++ keyType :: data :: comment
  before : ∀ w ∈ before, typeStart.isPrefixOf w = false
  keyType : typeStart.isPrefixOf keyType = true

namespace ManagedEntry

variable {text keyType data : Text} {before comment : List Text} {entry : ManagedEntry}

theorem ofText_of_isKeyWords (h : IsKeyWords text.words before keyType data comment) :
    ofText text = do
      let key ← PublicKey.parse (Text.join [' '] [keyType, data])
      return ⟨entryLine before keyType data comment, key.fingerprint⟩ := by
  have hbefore : ∀ w ∈ before, (!typeStart.isPrefixOf w) = true := fun w hw => by
    simp [h.before w hw]
  have htake : text.words.takeWhile (fun w => !typeStart.isPrefixOf w) = before := by
    rw [h.words, List.takeWhile_append_of_pos hbefore,
      List.takeWhile_cons_of_neg (by simp [h.keyType]), List.append_nil]
  have hdrop : text.words.drop before.length = keyType :: data :: comment := by
    rw [h.words, List.drop_left]
  unfold ofText
  cases before with
  | nil =>
      have hwords : text.words = keyType :: data :: comment := h.words
      rw [hwords] at htake hdrop
      simp only [hwords, htake, hdrop]
      rfl
  | cons first before =>
      have hwords : text.words = first :: (before ++ keyType :: data :: comment) := h.words
      rw [hwords] at htake hdrop
      simp only [hwords, htake, hdrop]
      rfl

/-- There is an entry only for words with a key in them. -/
theorem exists_isKeyWords_of_ofText (h : ofText text = .ok entry) :
    ∃ before keyType data comment, IsKeyWords text.words before keyType data comment := by
  let isOther : Text → Bool := fun w => !typeStart.isPrefixOf w
  let before := text.words.takeWhile isOther
  have hsplit : before ++ text.words.dropWhile isOther = text.words :=
    List.takeWhile_append_dropWhile
  have hdrop : text.words.drop before.length = text.words.dropWhile isOther := by
    conv_lhs => rw [← hsplit]
    exact List.drop_left
  have hbefore : ∀ w ∈ before, typeStart.isPrefixOf w = false := fun w hw => by
    simpa [isOther] using List.all_eq_true.1 List.all_takeWhile w hw
  have hfirst : ∀ w ∈ (text.words.dropWhile isOther).head?, typeStart.isPrefixOf w = true :=
    fun w hw => by
      have := List.head?_dropWhile_not isOther text.words
      rw [Option.mem_def.1 hw] at this
      simpa [isOther] using this
  unfold ofText at h
  rcases hwords : text.words with _ | ⟨first, more⟩
  · rw [hwords] at h
    nomatch h
  rcases hrest : text.words.dropWhile isOther with _ | ⟨keyType, _ | ⟨data, comment⟩⟩
  · rw [hrest, hwords] at hdrop
    simp only [hwords, isOther, before] at h hdrop
    rw [hdrop] at h
    nomatch h
  · rw [hrest, hwords] at hdrop
    simp only [hwords, isOther, before] at h hdrop
    rw [hdrop] at h
    nomatch h
  · refine ⟨before, keyType, data, comment, ?_, hbefore, ?_⟩
    · rw [← hrest, hsplit, ← hwords]
    · exact hfirst keyType (by rw [hrest]; rfl)

theorem ofText_eq_ok_iff :
    ofText text = .ok entry ↔
      ∃ before keyType data comment key, IsKeyWords text.words before keyType data comment ∧
        PublicKey.parse (Text.join [' '] [keyType, data]) = .ok key ∧
        entry = ⟨entryLine before keyType data comment, key.fingerprint⟩ := by
  constructor
  · intro h
    obtain ⟨before, keyType, data, comment, hwords⟩ := exists_isKeyWords_of_ofText h
    rw [ofText_of_isKeyWords hwords, bind_eq_ok_iff] at h
    obtain ⟨key, hparse, hentry⟩ := h
    exact ⟨before, keyType, data, comment, key, hwords, hparse, (Except.ok.inj hentry).symm⟩
  · rintro ⟨before, keyType, data, comment, key, hwords, hparse, rfl⟩
    rw [ofText_of_isKeyWords hwords, hparse]
    rfl

end ManagedEntry

/-! ### A sample key -/

def sampleType : Text :=
  "ssh-ed25519".toList

def sampleData : Text :=
  "AAAAC3NzaC1lZDI1NTE5AAAAIJziG/PS6WTReGGCQjtpMlTDjL0AR+ErCRmEPKIoVxmx".toList

def sampleKey : Text :=
  Text.join [' '] [sampleType, sampleData]

theorem exists_parse_sampleKey : ∃ key, PublicKey.parse sampleKey = .ok key := by
  have hok : (PublicKey.parse sampleKey).isOk = true := by decide +kernel
  rcases hparse : PublicKey.parse sampleKey with e | key
  · rw [hparse] at hok
    nomatch hok
  · exact ⟨key, rfl⟩

theorem exists_ofText_sampleKey : ∃ entry, ManagedEntry.ofText sampleKey = .ok entry := by
  obtain ⟨key, hkey⟩ := exists_parse_sampleKey
  exact ⟨_, ManagedEntry.ofText_eq_ok_iff.2
    ⟨[], sampleType, sampleData, [], key, ⟨by decide +kernel, nofun, by decide⟩, hkey, rfl⟩⟩

end SshKeys.AuthorizedKeys
