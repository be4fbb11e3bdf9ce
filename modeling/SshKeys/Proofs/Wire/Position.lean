import SshKeys.Proofs.Wire.Sequence

/-!
Where a reader stands after reads of all kinds, those that fail included.

`Ends` lists the ways in which a request can end, and `ends_step` says that there
are no others. In each of them the reader passes some octets, or none, so it never
leaves the octets that it was started on (`IsIn`). What a request leaves behind is
then said in terms of these octets and of positions in them (`KeepsPlace`), for one
request first and for a run of them by induction.
-/

namespace SshKeys.Wire

variable {r r' here next : Reader} {q : Request} {result : Except Error Value}
  {data octets : Bytes}

/-! ### Requests that fail -/

theorem run_raw_cases (length : Nat) (r : Reader) :
    (r.remaining.length < length ∧
      (Read.raw length).run.run r = (.error (.truncated length r.remaining.length), r)) ∨
    ∃ data r', Returns (Read.raw length) r data r' := by
  unfold Returns
  rw [Read.run_raw]
  by_cases hshort : r.remaining.length < length
  · exact .inl ⟨hshort, if_pos hshort⟩
  · exact .inr ⟨_, _, if_neg hshort⟩

theorem run_word_cases (r : Reader) :
    (r.remaining.length < 4 ∧
      Read.word.run.run r = (.error (.truncated 4 r.remaining.length), r)) ∨
    ∃ v r', Returns Read.word r v r' := by
  rcases run_raw_cases 4 r with ⟨hshort, hrun⟩ | ⟨data, r', hreturns⟩
  · refine .inl ⟨hshort, ?_⟩
    rw [Read.word, Read.run_bind, hrun]
  · exact .inr ⟨_, r', returns_bind.2 ⟨data, r', hreturns, returns_pure.2 ⟨rfl, rfl⟩⟩⟩

/-- A string ends in front of its length, behind it or behind its octets. -/
theorem run_bytes_cases (r : Reader) :
    (r.remaining.length < 4 ∧
      Read.bytes.run.run r = (.error (.truncated 4 r.remaining.length), r)) ∨
    (∃ n r', r.Consumes (word n) r' ∧ r'.remaining.length < n.toNat ∧
      Read.bytes.run.run r = (.error (.truncated n.toNat r'.remaining.length), r')) ∨
    ∃ body r', Returns Read.bytes r body r' := by
  rcases run_word_cases r with ⟨hshort, hrun⟩ | ⟨n, s, hlength⟩
  · refine .inl ⟨hshort, ?_⟩
    rw [Read.bytes, Read.run_bind, hrun]
  rcases run_raw_cases n.toNat s with ⟨hshort, hrun⟩ | ⟨body, r', hbody⟩
  · refine .inr (.inl ⟨n, s, returns_word.1 hlength, hshort, ?_⟩)
    rw [Read.bytes, Read.run_bind, show Read.word.run.run r = _ from hlength]
    exact hrun
  · exact .inr (.inr ⟨body, r', returns_bind.2 ⟨n, s, hlength, hbody⟩⟩)

/-! ### How a request ends -/

/-- What is asked for has its length in front. -/
def Request.IsCounted : Request → Prop
  | .raw _ | .word => False
  | .bytes | .text | .mpint => True

/-- The octets that are asked for first: all of them, or those of a length. -/
def Request.first : Request → Nat
  | .raw length => length
  | .word | .bytes | .text | .mpint => 4

/-- The answer where the octets of a string are found. -/
def Request.finish : Request → Bytes → Except Error Value
  | .text, body =>
    match Text.ofUtf8? body with
    | some t => .ok (.text t)
    | none => .error .invalidUtf8
  | .mpint, body => .ok (.bytes (withoutPad body))
  | .raw _, body | .word, body | .bytes, body => .ok (.bytes body)

/-- The ways in which a request ends. -/
inductive Ends (r : Reader) : Request → Except Error Value → Reader → Prop
  | raw {data : Bytes} {r' : Reader} (h : r.Consumes data r') :
      Ends r (.raw data.length) (.ok (.bytes data)) r'
  | word {v : UInt32} {r' : Reader} (h : r.Consumes (word v) r') : Ends r .word (.ok (.word v)) r'
  /-- the octets asked for first are not there -/
  | short {q : Request} (h : r.remaining.length < q.first) :
      Ends r q (.error (.truncated q.first r.remaining.length)) r
  /-- the length is there, but not what it counts -/
  | shortBody {q : Request} {n : UInt32} {r' : Reader} (hq : q.IsCounted)
      (h : r.Consumes (Wire.word n) r') (hshort : r'.remaining.length < n.toNat) :
      Ends r q (.error (.truncated n.toNat r'.remaining.length)) r'
  | body {q : Request} {body : Bytes} {r' : Reader} (hq : q.IsCounted)
      (hlength : body.length < UInt32.size) (h : r.Consumes (string body) r') :
      Ends r q (q.finish body) r'

theorem run_map {ε α β : Type} (f : α → β) (x : ExceptT ε (StateM Reader) α) (r : Reader) :
    (f <$> x).run.run r =
      match x.run.run r with
      | (.ok a, r') => (.ok (f a), r')
      | (.error e, r') => (.error e, r') := by
  rw [← bind_pure_comp, Read.run_bind]
  rfl

/-- All requests with a length read a string, and make something of it where they stand then. -/
theorem step_of_isCounted (hq : q.IsCounted) (r : Reader) :
    r.step q =
      match Read.bytes.run.run r with
      | (.ok body, r') => (q.finish body, r')
      | (.error e, r') => (.error e, r') := by
  cases q with
  | raw length => exact hq.elim
  | word => exact hq.elim
  | bytes =>
      show (Value.bytes <$> Read.bytes).run.run r = _
      rw [run_map]
      rcases Read.bytes.run.run r with ⟨e | body, r'⟩ <;> rfl
  | mpint =>
      show (Value.bytes <$> Read.mpint).run.run r = _
      rw [mpint_eq_map, run_map, run_map]
      rcases Read.bytes.run.run r with ⟨e | body, r'⟩ <;> rfl
  | text =>
      show (Value.text <$> Read.text).run.run r = _
      rw [run_map, Read.text, Read.run_bind]
      rcases Read.bytes.run.run r with ⟨e | body, r'⟩
      · rfl
      · simp only [Request.finish]
        cases Text.ofUtf8? body <;> rfl

theorem first_of_isCounted (hq : q.IsCounted) : q.first = 4 := by
  cases q with
  | raw length => exact hq.elim
  | word | bytes | text | mpint => rfl

theorem ends_of_isCounted (hq : q.IsCounted) (r : Reader) :
    Ends r q (r.step q).1 (r.step q).2 := by
  have hfirst := first_of_isCounted hq
  rw [step_of_isCounted hq]
  rcases run_bytes_cases r with
    ⟨hshort, hrun⟩ | ⟨n, r', hconsumes, hshort, hrun⟩ | ⟨body, r', hreturns⟩
  · rw [hrun, ← hfirst]
    exact .short (hfirst ▸ hshort)
  · rw [hrun]
    exact .shortBody hq hconsumes hshort
  · obtain ⟨hlength, hconsumes⟩ := returns_bytes.1 hreturns
    rw [show Read.bytes.run.run r = _ from hreturns]
    exact .body hq hlength hconsumes

theorem ends_step (r : Reader) (q : Request) : Ends r q (r.step q).1 (r.step q).2 := by
  by_cases hq : q.IsCounted
  · exact ends_of_isCounted hq r
  cases q with
  | raw length =>
      have hstep : r.step (.raw length) = _ := run_map Value.bytes (Read.raw length) r
      rw [hstep]
      rcases run_raw_cases length r with ⟨hshort, hrun⟩ | ⟨data, r', hreturns⟩
      · rw [hrun]
        exact .short hshort
      · obtain ⟨rfl, hconsumes⟩ := returns_raw.1 hreturns
        rw [show (Read.raw data.length).run.run r = _ from hreturns]
        exact .raw hconsumes
  | word =>
      have hstep : r.step .word = _ := run_map Value.word Read.word r
      rw [hstep]
      rcases run_word_cases r with ⟨hshort, hrun⟩ | ⟨v, r', hreturns⟩
      · rw [hrun]
        exact .short hshort
      · rw [show Read.word.run.run r = _ from hreturns]
        exact .word (returns_word.1 hreturns)
  | bytes | text | mpint => exact absurd trivial hq

/-- However it ends, a request passes octets or stays where it is. -/
theorem Ends.exists_consumes (h : Ends r q result r') : ∃ octets, r.Consumes octets r' := by
  cases h with
  | raw h => exact ⟨_, h⟩
  | word h => exact ⟨_, h⟩
  | short => exact ⟨[], Reader.consumes_nil.2 rfl⟩
  | shortBody _ h => exact ⟨_, h⟩
  | body _ _ h => exact ⟨_, h⟩

/-! ### Places in the octets -/

namespace Reader

/-- The reader stands somewhere in `data`, and has before it what is there from its position on. -/
structure IsIn (r : Reader) (data : Bytes) : Prop where
  position : r.position ≤ data.length
  remaining : r.remaining = data.drop r.position

theorem isIn_start (data : Bytes) : (start data).IsIn data :=
  ⟨Nat.zero_le _, rfl⟩

theorem IsIn.length_remaining (h : r.IsIn data) :
    r.remaining.length = data.length - r.position := by
  rw [h.remaining, List.length_drop]

theorem IsIn.of_consumes (h : r.IsIn data) (hconsumes : r.Consumes octets r') : r'.IsIn data := by
  have hsplit : octets ++ r'.remaining = data.drop r.position :=
    hconsumes.remaining.symm.trans h.remaining
  constructor
  · have hlength := congrArg List.length hsplit
    rw [List.length_append, List.length_drop] at hlength
    have hposition := h.position
    rw [hconsumes.position]
    omega
  · rw [hconsumes.position, ← List.drop_drop, ← hsplit, List.drop_left]

/-- The octets of `data` between two readers. -/
def between (data : Bytes) (here next : Reader) : Bytes :=
  (data.drop here.position).take (next.position - here.position)

theorem IsIn.between_eq (h : here.IsIn data) (hconsumes : here.Consumes octets next) :
    between data here next = octets := by
  rw [between, ← h.remaining, hconsumes.remaining, hconsumes.position, Nat.add_sub_cancel_left,
    List.take_left]

end Reader

open Reader

/-! ### One request -/

/-- What a request that succeeds makes of the octets that it passes. -/
inductive Gives : Request → Bytes → Value → Prop
  | raw (data : Bytes) : Gives (.raw data.length) data (.bytes data)
  | word (v : UInt32) : Gives .word (word v) (.word v)
  | bytes {body : Bytes} (h : body.length < UInt32.size) : Gives .bytes (string body) (.bytes body)
  | text {t : Text} (h : t.utf8.length < UInt32.size) : Gives .text (string t.utf8) (.text t)
  | mpint {body : Bytes} (h : body.length < UInt32.size) :
      Gives .mpint (string body) (.bytes (withoutPad body))

/-- What a request does to a reader of `data`: `here` it was before, and `next` it is after. -/
structure KeepsPlace (data : Bytes) (q : Request) (here : Reader) (result : Except Error Value)
    (next : Reader) : Prop where
  forward : here.position ≤ next.position
  /-- without a length, all or nothing is read -/
  stays : ¬q.IsCounted → ∀ e, result = .error e → next.position = here.position
  /-- a length that is there is read before it is found to be too large -/
  passesLength : q.IsCounted → ∀ needed available, result = .error (.truncated needed available) →
    next.position = here.position + if 4 ≤ data.length - here.position then 4 else 0
  passesText : result = .error .invalidUtf8 → q = .text ∧ ∃ body, Text.ofUtf8? body = none ∧
    body.length < UInt32.size ∧ between data here next = string body ∧
    next.position = here.position + (4 + body.length)
  available : ∀ needed available, result = .error (.truncated needed available) →
    available = data.length - next.position ∧ available < needed
  needed : ∀ needed available, result = .error (.truncated needed available) →
    needed = q.first ∨ ∃ n, between data here next = word n ∧ needed = n.toNat
  returned : ∀ value, result = .ok value → Gives q (between data here next) value

theorem gives_of_finish {body : Bytes} {value : Value} (hq : q.IsCounted)
    (hlength : body.length < UInt32.size) (h : q.finish body = .ok value) :
    Gives q (string body) value := by
  cases q with
  | raw length => exact hq.elim
  | word => exact hq.elim
  | bytes =>
      cases h
      exact .bytes hlength
  | mpint =>
      cases h
      exact .mpint hlength
  | text =>
      simp only [Request.finish] at h
      split at h
      · rename_i t ht
        cases h
        rw [Text.eq_utf8_of_ofUtf8? ht] at hlength ⊢
        exact .text hlength
      · nomatch h

/-- Where the octets of a string are found, only its text can be wrong with it. -/
theorem finish_eq_error_iff {body : Bytes} {e : Error} :
    q.finish body = .error e ↔ q = .text ∧ Text.ofUtf8? body = none ∧ e = .invalidUtf8 := by
  cases q with
  | raw length => exact ⟨nofun, nofun⟩
  | word => exact ⟨nofun, nofun⟩
  | bytes => exact ⟨nofun, nofun⟩
  | mpint => exact ⟨nofun, nofun⟩
  | text =>
      simp only [Request.finish]
      cases Text.ofUtf8? body with
      | none => simp [eq_comm]
      | some t => simp

namespace Reader.IsIn

theorem keepsPlace_of_ok {value : Value} (hin : here.IsIn data)
    (hconsumes : here.Consumes octets next) (h : Gives q octets value) :
    KeepsPlace data q here (.ok value) next := by
  have hposition := hconsumes.position
  refine ⟨by omega, nofun, nofun, nofun, nofun, nofun, ?_⟩
  rintro _ ⟨⟩
  rwa [hin.between_eq hconsumes]

/-- A read that runs short has passed nothing, or a length. -/
theorem keepsPlace_of_truncated {needed : Nat} (hin : here.IsIn data)
    (hconsumes : here.Consumes octets next) (hshort : next.remaining.length < needed)
    (h : octets = [] ∧ needed = q.first ∨
      q.IsCounted ∧ ∃ n, octets = word n ∧ needed = n.toNat) :
    KeepsPlace data q here (.error (.truncated needed next.remaining.length)) next := by
  have hleft := hin.length_remaining
  have hlength := congrArg List.length hconsumes.remaining
  have hposition := hconsumes.position
  rw [List.length_append] at hlength
  refine ⟨by omega, fun hcounted _ _ => ?_, fun hcounted _ _ _ => ?_, nofun, ?_, ?_, nofun⟩
  · rcases h with ⟨rfl, -⟩ | ⟨hq, -⟩
    · exact hposition
    · exact absurd hq hcounted
  · rcases h with ⟨rfl, hneeded⟩ | ⟨-, n, rfl, -⟩
    · rw [first_of_isCounted hcounted] at hneeded
      rw [List.length_nil] at hlength
      rw [if_neg (by omega)]
      exact hposition
    · rw [length_word] at hlength hposition
      rw [if_pos (by omega), hposition]
  · rintro _ _ ⟨⟩
    exact ⟨(hin.of_consumes hconsumes).length_remaining, hshort⟩
  · rintro _ _ ⟨⟩
    rw [hin.between_eq hconsumes]
    exact h.imp And.right And.right

theorem keepsPlace_of_invalidUtf8 {body : Bytes} (hin : here.IsIn data)
    (hconsumes : here.Consumes (string body) next) (hlength : body.length < UInt32.size)
    (h : Text.ofUtf8? body = none) : KeepsPlace data .text here (.error .invalidUtf8) next := by
  have hposition := hconsumes.position
  rw [length_string] at hposition
  exact ⟨by omega, fun hcounted => absurd trivial hcounted, nofun,
    fun _ => ⟨rfl, body, h, hlength, hin.between_eq hconsumes, hposition⟩, nofun, nofun, nofun⟩

end Reader.IsIn

/-- The step, for each way in which it ends. -/
theorem Ends.keepsPlace (h : Ends here q result next) (hin : here.IsIn data) :
    KeepsPlace data q here result next := by
  cases h with
  | raw h => exact hin.keepsPlace_of_ok h (.raw _)
  | word h => exact hin.keepsPlace_of_ok h (.word _)
  | short hshort => exact hin.keepsPlace_of_truncated (consumes_nil.2 rfl) hshort (.inl ⟨rfl, rfl⟩)
  | shortBody hq h hshort =>
      exact hin.keepsPlace_of_truncated h hshort (.inr ⟨hq, _, rfl, rfl⟩)
  | @body _ body _ hq hlength h =>
      rcases hfinish : q.finish body with e | value
      · obtain ⟨rfl, hnone, rfl⟩ := finish_eq_error_iff.1 hfinish
        exact hin.keepsPlace_of_invalidUtf8 h hlength hnone
      · exact hin.keepsPlace_of_ok h (gives_of_finish hq hlength hfinish)

/-! ### A run of requests -/

theorem stops_cons (r : Reader) (q : Request) (requests : List Request) :
    r.stops (q :: requests) = r :: (r.step q).2.stops requests := rfl

/-- The run: each request finds the reader where the one before left it. -/
theorem stops_keep_place (hin : r.IsIn data) (requests : List Request) :
    (∀ here ∈ r.stops requests, here.IsIn data ∧ r.position ≤ here.position) ∧
    (r.stops requests).Pairwise (fun here later => here.position ≤ later.position) ∧
    ∀ (count : Nat) (q : Request), requests[count]? = some q → ∃ here result next,
      (r.stops requests)[count]? = some here ∧ (r.steps requests)[count]? = some (result, next) ∧
      (r.stops requests)[count + 1]? = some next ∧ KeepsPlace data q here result next := by
  induction requests generalizing r with
  | nil =>
      refine ⟨fun here hhere => ?_, List.pairwise_singleton _ _, nofun⟩
      rw [List.mem_singleton.1 hhere]
      exact ⟨hin, Nat.le_refl _⟩
  | cons q requests ih =>
      have hends := ends_step r q
      have hkeeps := hends.keepsPlace hin
      obtain ⟨octets, hconsumes⟩ := hends.exists_consumes
      obtain ⟨hstops, hforward, hsteps⟩ := ih (hin.of_consumes hconsumes)
      have hlater : ∀ later ∈ (r.step q).2.stops requests, r.position ≤ later.position :=
        fun later hmem => Nat.le_trans hkeeps.forward (hstops later hmem).2
      rw [stops_cons]
      refine ⟨fun here hhere => ?_, List.pairwise_cons.2 ⟨hlater, hforward⟩, ?_⟩
      · rcases List.mem_cons.1 hhere with rfl | hhere
        · exact ⟨hin, Nat.le_refl _⟩
        · exact ⟨(hstops here hhere).1, hlater here hhere⟩
      · intro count asked hasked
        cases count with
        | zero =>
            cases hasked
            exact ⟨r, _, _, rfl, rfl, rfl, hkeeps⟩
        | succ count => exact hsteps count asked hasked

/-- Whatever is asked of a reader, and whether or not it fails, the reader stays in the octets that
it was started on and never goes back, and each request moves it exactly as far as its answer
says. -/
theorem steps_keep_place (data : Bytes) (requests : List Request) :
    let stops := (Reader.start data).stops requests
    let steps := (Reader.start data).steps requests
    (∀ here ∈ stops, here.position ≤ data.length ∧ here.remaining = data.drop here.position) ∧
    stops.Pairwise (fun here later => here.position ≤ later.position) ∧
    ∀ (count : Nat) (q : Request), requests[count]? = some q → ∃ here result next,
      stops[count]? = some here ∧ steps[count]? = some (result, next) ∧
      stops[count + 1]? = some next ∧ KeepsPlace data q here result next := by
  intro stops steps
  obtain ⟨hstops, hforward, hsteps⟩ := stops_keep_place (isIn_start data) requests
  exact ⟨fun here hhere => ⟨(hstops here hhere).1.position, (hstops here hhere).1.remaining⟩,
    hforward, hsteps⟩

end SshKeys.Wire
