import SshKeys.Proofs.Wire.Reading

/-!
Items are read back as they were written.

A request consumes the encoding of its item, and the next one finds the reader
in front of the next item (`step_request`). So whatever items are written one
after the other, their requests return them in order, and after as many
requests as items the reader has come as far as the writer had. What stands
before and behind the items makes no difference to that.
-/

namespace SshKeys.Wire

/-! ### What is written and what is read -/

/-- The octets of a magnitude without leading zeros. If nothing is left, one zero stays. -/
def stripped (magnitude : Bytes) : Bytes :=
  match magnitude.dropWhile (· == 0) with
  | [] => [0]
  | first :: rest => first :: rest

/-- What is read where an item was written. -/
def Item.value : Item → Value
  | .word v => .word v
  | .raw data => .bytes data
  | .string data => .bytes data
  | .text t => .text t
  | .mpint magnitude => .bytes (stripped magnitude)

/-- The length in front of an item fits a word. -/
def Item.Fits : Item → Prop
  | .word _ => True
  | .raw _ => True
  | .string data => data.length < UInt32.size
  | .text t => t.utf8.length < UInt32.size
  | .mpint magnitude => (mpintBody magnitude).length < UInt32.size

instance : (item : Item) → Decidable item.Fits
  | .word _ | .raw _ => .isTrue trivial
  | .string data => inferInstanceAs (Decidable (data.length < UInt32.size))
  | .text t => inferInstanceAs (Decidable (t.utf8.length < UInt32.size))
  | .mpint magnitude => inferInstanceAs (Decidable ((mpintBody magnitude).length < UInt32.size))

/-- The body of a number without the zero octet that only pads its sign. -/
def withoutPad : Bytes → Bytes
  | 0 :: first :: rest => first :: rest
  | body => body

/-- The reader before the first request, and after each of them. -/
def Reader.stops (r : Reader) (requests : List Request) : List Reader :=
  r :: (r.steps requests).map Prod.snd

/-! ### One item -/

variable {r r' : Reader} {item : Item}

theorem returns_map {ε α β : Type} {x : ExceptT ε (StateM Reader) α} {a : α} (f : α → β)
    (h : Returns x r a r') : Returns (f <$> x) r (f a) r' := by
  rw [← bind_pure_comp]
  exact returns_bind.2 ⟨a, r', h, returns_pure.2 ⟨rfl, rfl⟩⟩

theorem mpint_eq_map : Read.mpint = withoutPad <$> Read.bytes := by
  rw [← bind_pure_comp, Read.mpint]
  congr
  funext body
  split
  · rfl
  · rename_i h
    rw [withoutPad]
    exact h

theorem withoutPad_cons {first : UInt8} (h : first ≠ 0) (rest : Bytes) :
    withoutPad (first :: rest) = first :: rest := by
  rw [withoutPad]
  simp [h]

/-- The pad goes with the zeros that were left out, and comes before none of the others. -/
theorem withoutPad_mpintBody (magnitude : Bytes) :
    withoutPad (mpintBody magnitude) = stripped magnitude := by
  have hfirst := List.head?_dropWhile_not (· == 0) magnitude
  unfold mpintBody stripped
  cases hdigits : magnitude.dropWhile (· == 0) with
  | nil => rfl
  | cons first rest =>
      rw [hdigits] at hfirst
      by_cases hhigh : 0x80 ≤ first
      · simp [hhigh, withoutPad]
      · simp only [hhigh, if_false]
        exact withoutPad_cons (by simpa using hfirst) rest

theorem returns_mpint {magnitude : Bytes} (h : (mpintBody magnitude).length < UInt32.size)
    (hconsumes : r.Consumes (mpint magnitude) r') :
    Returns Read.mpint r (stripped magnitude) r' := by
  rw [mpint_eq_map, ← withoutPad_mpintBody]
  exact returns_map withoutPad (returns_bytes.2 ⟨h, hconsumes⟩)

/-- The step: behind its octets, an item has been read. -/
theorem step_request (h : item.Fits) (hconsumes : r.Consumes item.encode r') :
    r.step item.request = (.ok item.value, r') := by
  cases item with
  | word v => exact returns_map Value.word (returns_word.2 hconsumes)
  | raw data => exact returns_map Value.bytes (returns_raw.2 ⟨rfl, hconsumes⟩)
  | string data => exact returns_map Value.bytes (returns_bytes.2 ⟨h, hconsumes⟩)
  | text t => exact returns_map Value.text (returns_text.2 ⟨h, hconsumes⟩)
  | mpint magnitude => exact returns_map Value.bytes (returns_mpint h hconsumes)

/-! ### Items one after the other -/

/-- The run: each item is read where the reader stands, and the others are behind it. -/
theorem steps_requests {items : List Item} (h : ∀ item ∈ items, item.Fits) (position : Nat)
    (after : Bytes) :
    let r : Reader := ⟨position, encode items ++ after⟩
    let requests := items.map Item.request
    (r.steps requests).map Prod.fst = items.map (fun item => .ok item.value) ∧
      ∀ count ≤ items.length, (r.stops requests)[count]? =
        some ⟨position + (encode (items.take count)).length,
          encode (items.drop count) ++ after⟩ := by
  induction items generalizing position with
  | nil => simp [Reader.steps, Reader.stops]
  | cons item items ih =>
      intro r requests
      let next : Reader := ⟨position + item.encode.length, encode items ++ after⟩
      have hconsumes : r.Consumes item.encode next := ⟨by simp [r, next], rfl⟩
      have hstep := step_request (h item (by simp)) hconsumes
      have hsteps : r.steps requests = (.ok item.value, next) ::
          next.steps (items.map Item.request) := by
        simp only [requests, List.map_cons, Reader.steps, hstep]
      obtain ⟨hanswers, hstops⟩ := ih (fun item hitem => h item (by simp [hitem]))
        (position + item.encode.length)
      constructor
      · rw [hsteps, List.map_cons, hanswers, List.map_cons]
      · intro count hcount
        cases count with
        | zero => simp [Reader.stops, r]
        | succ count =>
            have hstop := hstops count (by simpa using hcount)
            simp only [Reader.stops, hsteps, List.map_cons, List.getElem?_cons_succ] at hstop ⊢
            rw [hstop]
            simp [Nat.add_assoc]

theorem length_stops (r : Reader) (requests : List Request) :
    (r.stops requests).length = requests.length + 1 := by
  have hsteps : (r.steps requests).length = requests.length := by
    induction requests generalizing r with
    | nil => rfl
    | cons request requests ih => simp [Reader.steps, ih]
  simp [Reader.stops, hsteps]

/-- Items of all kinds are read back in the order in which they were written, and the reader keeps
in step with the writer. What stands before and behind them does not matter, but the reader is at
its end only if nothing is behind. -/
theorem steps_encode {items : List Item} (h : ∀ item ∈ items, item.Fits) (before after : Bytes) :
    let r := (Reader.start (before ++ encode items ++ after)).advance before.length
    let requests := items.map Item.request
    (r.steps requests).map Prod.fst = items.map (fun item => .ok item.value) ∧
      (∀ count ≤ items.length, ∃ here, (r.stops requests)[count]? = some here ∧
        here.position = before.length + (encode (items.take count)).length ∧
        here.remaining = encode (items.drop count) ++ after) ∧
      ∃ last, (r.stops requests).getLast? = some last ∧ (last.isEmpty = true ↔ after = []) := by
  intro r requests
  have hstart : r = ⟨before.length, encode items ++ after⟩ := by
    simp [r, Reader.start, Reader.advance]
  obtain ⟨hanswers, hstops⟩ := steps_requests h before.length after
  rw [← hstart] at hanswers hstops
  have hlast := hstops items.length (Nat.le_refl _)
  have hlength : (r.stops requests).length - 1 = items.length := by
    simp [length_stops, requests]
  rw [← hlength, ← List.getLast?_eq_getElem?] at hlast
  exact ⟨hanswers, fun count hcount => ⟨_, hstops count hcount, rfl, rfl⟩, _, hlast,
    by simp [Reader.isEmpty, hlength]⟩

/-- Items of every kind between two other octets. A magnitude has leading zeros and a high bit, and
another one is nothing but zeros. -/
theorem steps_encode_mixed :
    let items : List Item := [.word 7, .mpint [0, 0, 0x80], .raw [1, 2], .text ['é'], .mpint [0, 0],
      .string []]
    let r := (Reader.start ([9] ++ encode items ++ [8])).advance 1
    (∀ item ∈ items, item.Fits) ∧
      (r.steps (items.map Item.request)).map Prod.fst =
        [.ok (.word 7), .ok (.bytes [0x80]), .ok (.bytes [1, 2]), .ok (.text ['é']),
          .ok (.bytes [0]), .ok (.bytes [])] ∧
      ∃ last, (r.stops (items.map Item.request)).getLast? = some last ∧ last.isEmpty ≠ true := by
  intro items r
  have hfits : ∀ item ∈ items, item.Fits := by decide
  obtain ⟨hanswers, -, last, hlast, hempty⟩ := steps_encode hfits [9] [8]
  exact ⟨hfits, hanswers, last, hlast, fun h => nomatch hempty.1 h⟩

end SshKeys.Wire
