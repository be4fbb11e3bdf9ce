import SshKeys.FileSystem.Change
import SshKeys.Proofs.FileSystem.Place
import SshKeys.Proofs.Text.Pieces

/-!
What a run of changes leaves as it was.

`ChangesOnly` bounds the difference between two states by the places that were
written to and the places where directories were made. Both kinds of steps have
one lemma, and a run is bounded by what its steps are bounded by. Making a
directory with all that is missing above it touches only places on its own path,
which is `makes_settleAll`.
-/

namespace SshKeys.FileSystem

variable {fs fs' fs'' : FileSystem} {l l' : Location} {path : Text}

/-! ### Looking -/

theorem stat_eq_ok_iff {node : Node} :
    fs.stat path = .ok node ↔ ∃ l, fs.locate path = .ok l ∧ fs.find? l = some node := by
  rw [stat, bind_eq_ok_iff]
  refine exists_congr fun l => and_congr_right fun _ => ?_
  cases hfind : fs.find? l with
  | none => exact ⟨nofun, nofun⟩
  | some found => simp [pure, Except.pure]

theorem stat_of_locate {node : Node} (hlocate : fs.locate path = .ok l)
    (hfind : fs.find? l = some node) : fs.stat path = .ok node :=
  stat_eq_ok_iff.2 ⟨l, hlocate, hfind⟩

theorem isDirectory_iff :
    fs.isDirectory path = true ↔ ∃ l, fs.locate path = .ok l ∧ fs.DirectoryAt l := by
  have hstat : fs.isDirectory path = true ↔ ∃ mode, fs.stat path = .ok (.directory mode) := by
    unfold isDirectory
    split
    · rename_i mode h
      exact ⟨fun _ => ⟨mode, h⟩, fun _ => rfl⟩
    · rename_i h
      simp only [Bool.false_eq_true, false_iff, not_exists]
      exact h
  simp only [hstat, stat_eq_ok_iff, DirectoryAt]
  constructor
  · rintro ⟨mode, l, hlocate, hfind⟩
    exact ⟨l, hlocate, mode, hfind⟩
  · rintro ⟨l, hlocate, mode, hfind⟩
    exact ⟨mode, l, hlocate, hfind⟩

/-- What is found under a path is in its place. -/
theorem stat_eq_ok_iff_place {node : Node} :
    fs.stat path = .ok node ↔
      fs.locate path = .ok (fs.place path) ∧ fs.find? (fs.place path) = some node := by
  rw [stat_eq_ok_iff]
  constructor
  · rintro ⟨l, hlocate, hfind⟩
    obtain rfl := (locate_eq_ok_iff.1 hlocate).2.2
    exact ⟨hlocate, hfind⟩
  · rintro ⟨hlocate, hfind⟩
    exact ⟨_, hlocate, hfind⟩

theorem isDirectory_iff_place :
    fs.isDirectory path = true ↔
      fs.locate path = .ok (fs.place path) ∧ fs.DirectoryAt (fs.place path) := by
  rw [isDirectory_iff]
  constructor
  · rintro ⟨l, hlocate, hdirectory⟩
    obtain rfl := (locate_eq_ok_iff.1 hlocate).2.2
    exact ⟨hlocate, hdirectory⟩
  · rintro ⟨hlocate, hdirectory⟩
    exact ⟨_, hlocate, hdirectory⟩

theorem holds_iff : fs.holds path = true ↔ ∃ node, fs.stat path = .ok node := by
  rw [holds]
  rcases fs.stat path with fault | node
  · exact ⟨nofun, nofun⟩
  · exact ⟨fun _ => ⟨node, rfl⟩, fun _ => rfl⟩

theorem holds_of_isDirectory (h : fs.isDirectory path = true) : fs.holds path = true := by
  obtain ⟨l, hlocate, mode, hfind⟩ := isDirectory_iff.1 h
  exact holds_iff.2 ⟨_, stat_of_locate hlocate hfind⟩

/-- What is in a directory that is there is found, unless its path is too long. -/
theorem holds_join_iff {directory name : Text} (hname : IsName name)
    (hdirectory : fs.isDirectory directory = true)
    (hheld : fs.find? (fs.place (Path.join directory name)) ≠ none) :
    fs.holds (Path.join directory name) = true ↔
      (Path.join directory name).utf8.length ≤ longestPath := by
  obtain ⟨hlocate, hthere⟩ := isDirectory_iff_place.1 hdirectory
  obtain ⟨node, hfind⟩ := Option.ne_none_iff_exists'.1 hheld
  constructor
  · intro h
    obtain ⟨found, hstat⟩ := holds_iff.1 h
    exact (locate_eq_ok_iff.1 (stat_eq_ok_iff_place.1 hstat).1).1.length
  · intro hlength
    rw [place_join hname] at hfind
    exact holds_iff.2
      ⟨node, stat_of_locate (locate_join hname hlocate hthere hlength) hfind⟩

/-! ### Directories with another mode -/

theorem walk_put_directory (h : fs.DirectoryAt l) (mode : Mode) (names : List Text) :
    (fs.put l (.directory mode)).walk l' names = fs.walk l' names := by
  obtain ⟨old, hold⟩ := h
  induction names generalizing l' with
  | nil => rfl
  | cons name rest ih =>
      rw [walk, walk, find?_put]
      by_cases h : l' = l
      · rw [if_pos h, h, hold]
        simp only [ih]
      · rw [if_neg h]
        simp only [ih]

theorem locate_put_directory (h : fs.DirectoryAt l) (mode : Mode) (path : Text) :
    (fs.put l (.directory mode)).locate path = fs.locate path := by
  unfold locate reach
  rw [walk_put_directory h]
  rfl

theorem stat_put_directory (h : fs.DirectoryAt l) (mode : Mode) (hpath : fs.place path ≠ l) :
    (fs.put l (.directory mode)).stat path = fs.stat path := by
  rw [stat, stat, locate_put_directory h]
  cases hlocate : fs.locate path with
  | error fault => rfl
  | ok l' =>
      obtain rfl := (locate_eq_ok_iff.1 hlocate).2.2
      rw [ok_bind, ok_bind, find?_put, if_neg hpath]

/-! ### Single changes -/

@[simp] theorem Node.mode_withMode (node : Node) (mode : Mode) :
    (node.withMode mode).mode = mode := by
  cases node <;> rfl

theorem grows_put_withMode {node : Node} (hfind : fs.find? l = some node) (mode : Mode) :
    Grows fs (fs.put l (node.withMode mode)) := by
  refine .put ?_
  rintro ⟨old, hold⟩
  cases hfind.symm.trans hold
  exact ⟨mode, rfl⟩

theorem put_put (fs : FileSystem) (l : Location) (node node' : Node) :
    (fs.put l node).put l node' = fs.put l node' := by
  simp [put, List.filter_filter]

/-- No directory is in the way of a file. -/
theorem grows_put_file (h : ¬fs.DirectoryAt l) (node : Node) : Grows fs (fs.put l node) :=
  .put fun hdirectory => absurd hdirectory h

section

variable {mode : Mode} {contents : Bytes}

theorem openTruncated_of_locate (hlocate : fs.locate path = .ok l) (h : ¬fs.DirectoryAt l)
    (mode : Mode) : ∃ opened, fs.openTruncated path mode = .ok (fs.put l (.file opened [])) := by
  rw [openTruncated, hlocate, ok_bind]
  rcases hfind : fs.find? l with _ | ⟨old, contents⟩ | old
  · exact ⟨_, rfl⟩
  · exact ⟨_, rfl⟩
  · exact absurd ⟨old, hfind⟩ h

theorem locate_of_openTruncated (h : fs.openTruncated path mode = .ok fs') :
    ∃ l, fs.locate path = .ok l ∧ ¬fs.DirectoryAt l := by
  rw [openTruncated, bind_eq_ok_iff] at h
  obtain ⟨l, hlocate, h⟩ := h
  refine ⟨l, hlocate, ?_⟩
  rintro ⟨old, hfind⟩
  rw [hfind] at h
  nomatch h

/-- The octets of a file. There are none where no file is. -/
def contentsAt (fs : FileSystem) (l : Location) : Bytes :=
  match fs.find? l with
  | some (.file _ contents) => contents
  | _ => []

theorem openAppending_of_locate (hlocate : fs.locate path = .ok l) (h : ¬fs.DirectoryAt l) :
    ∃ opened mode, fs.openAppending path = .ok opened ∧
      opened.find? l = some (.file mode (fs.contentsAt l)) ∧
      (opened = fs ∨ opened = fs.put l (.file mode (fs.contentsAt l))) := by
  rw [openAppending, hlocate, ok_bind]
  rcases hfind : fs.find? l with _ | ⟨mode, contents⟩ | mode
  · exact ⟨_, _, rfl, by rw [contentsAt, hfind, find?_put_self], .inr (by rw [contentsAt, hfind])⟩
  · exact ⟨fs, mode, rfl, by rw [contentsAt, hfind], .inl rfl⟩
  · exact absurd ⟨mode, hfind⟩ h

theorem locate_of_openAppending (h : fs.openAppending path = .ok fs') :
    ∃ l, fs.locate path = .ok l ∧ ¬fs.DirectoryAt l := by
  rw [openAppending, bind_eq_ok_iff] at h
  obtain ⟨l, hlocate, h⟩ := h
  refine ⟨l, hlocate, ?_⟩
  rintro ⟨mode, hfind⟩
  rw [hfind] at h
  nomatch h

theorem read_of_locate (hlocate : fs.locate path = .ok l)
    (hfind : fs.find? l = some (.file mode contents)) : fs.read path = .ok contents := by
  rw [FileSystem.read, stat_of_locate hlocate hfind]
  rfl

theorem read_eq_ok_iff :
    fs.read path = .ok contents ↔ ∃ mode, fs.stat path = .ok (.file mode contents) := by
  rw [FileSystem.read, bind_eq_ok_iff]
  constructor
  · rintro ⟨⟨mode, old⟩ | mode, hstat, h⟩
    · cases h
      exact ⟨mode, hstat⟩
    · nomatch h
  · rintro ⟨mode, hstat⟩
    exact ⟨_, hstat, rfl⟩

theorem readText_eq_ok_iff {text : Text} :
    fs.readText path = .ok text ↔ ∃ mode, fs.stat path = .ok (.file mode text.utf8) := by
  rw [readText, bind_eq_ok_iff]
  constructor
  · rintro ⟨contents, hread, h⟩
    rcases htext : Text.ofUtf8? contents with _ | t
    · rw [htext] at h
      nomatch h
    · rw [htext] at h
      cases h
      rw [← Text.eq_utf8_of_ofUtf8? htext]
      exact read_eq_ok_iff.1 hread
  · rintro ⟨mode, hstat⟩
    refine ⟨_, read_eq_ok_iff.2 ⟨mode, hstat⟩, ?_⟩
    rw [Text.ofUtf8?_utf8]
    rfl

theorem readText_of_stat {text : Text} (h : fs.stat path = .ok (.file mode text.utf8)) :
    fs.readText path = .ok text :=
  readText_eq_ok_iff.2 ⟨mode, h⟩

theorem append_of_locate (hlocate : fs.locate path = .ok l)
    (hfind : fs.find? l = some (.file mode contents)) (data : Bytes) :
    fs.append path data = .ok (fs.put l (.file mode (contents ++ data))) := by
  rw [append, hlocate, ok_bind, hfind]
  rfl

theorem setMode_of_locate {node : Node} (hlocate : fs.locate path = .ok l)
    (hfind : fs.find? l = some node) (mode : Mode) :
    fs.setMode path mode = .ok (fs.put l (node.withMode mode)) := by
  rw [setMode, hlocate, ok_bind, hfind]
  rfl

theorem copy_of_locate {source : Text} (hsource : fs.stat source = .ok (.file mode contents))
    (hlocate : fs.locate path = .ok l) (h : ¬fs.DirectoryAt l) :
    fs.copy source path = .ok (fs.put l (.file mode contents)) := by
  rw [copy, hsource, ok_bind]
  show (fs.locate path >>= _) = _
  rw [hlocate, ok_bind]
  rcases hfind : fs.find? l with _ | ⟨old, oldContents⟩ | old
  · rfl
  · rfl
  · exact absurd ⟨old, hfind⟩ h

theorem copy_eq_ok_iff {source : Text} :
    fs.copy source path = .ok fs' ↔
      ∃ mode contents l, fs.stat source = .ok (.file mode contents) ∧ fs.locate path = .ok l ∧
        ¬fs.DirectoryAt l ∧ fs' = fs.put l (.file mode contents) := by
  constructor
  · intro hrun
    have h := hrun
    rw [copy, bind_eq_ok_iff] at h
    obtain ⟨⟨mode, contents⟩ | mode, hsource, h⟩ := h
    · obtain ⟨l, hlocate, h⟩ := bind_eq_ok_iff.1 h
      have hfree : ¬fs.DirectoryAt l := by
        rintro ⟨old, hfind⟩
        rw [hfind] at h
        nomatch h
      rw [copy_of_locate hsource hlocate hfree] at hrun
      exact ⟨mode, contents, l, hsource, hlocate, hfree, (Except.ok.inj hrun).symm⟩
    · nomatch h
  · rintro ⟨mode, contents, l, hsource, hlocate, hfree, rfl⟩
    exact copy_of_locate hsource hlocate hfree

end

/-! ### Bounds on changes -/

/-- All stays but what is at the locations `changed`, and new directories where `made` allows
them. -/
def ChangesOnly (changed : List Location) (made : Location → Prop) (fs fs' : FileSystem) : Prop :=
  ∀ l, l ∉ changed →
    fs'.find? l = fs.find? l ∨ fs.find? l = none ∧ made l ∧ fs'.DirectoryAt l

namespace ChangesOnly

variable {changed changed' : List Location} {made made' : Location → Prop}

theorem refl (changed : List Location) (made : Location → Prop) (fs : FileSystem) :
    ChangesOnly changed made fs fs :=
  fun _ _ => .inl rfl

theorem trans (h : ChangesOnly changed made fs fs') (h' : ChangesOnly changed made fs' fs'') :
    ChangesOnly changed made fs fs'' := by
  intro l hl
  rcases h' l hl with hsame' | ⟨hnone', hmade', hdirectory'⟩
  · rw [DirectoryAt, hsame']
    exact h l hl
  · rcases h l hl with hsame | ⟨-, -, mode, hfind⟩
    · exact .inr ⟨hsame ▸ hnone', hmade', hdirectory'⟩
    · exact absurd (hnone'.symm.trans hfind) (by simp)

theorem mono (h : ChangesOnly changed made fs fs') (hchanged : changed ⊆ changed')
    (hmade : ∀ l, made l → made' l) : ChangesOnly changed' made' fs fs' :=
  fun l hl => (h l fun hmem => hl (hchanged hmem)).imp_right fun ⟨hnone, hl, hdirectory⟩ =>
    ⟨hnone, hmade l hl, hdirectory⟩

theorem put (hl : l ∈ changed) (made : Location → Prop) (fs : FileSystem) (node : Node) :
    ChangesOnly changed made fs (fs.put l node) := by
  intro l' hl'
  have hne : l' ≠ l := fun h => hl' (h ▸ hl)
  rw [find?_put, if_neg hne]
  exact .inl rfl

/-- Whatever is not a directory afterwards is what it was. -/
theorem find?_eq (h : ChangesOnly changed made fs fs') (hl : l ∉ changed)
    (hdirectory : ¬fs'.DirectoryAt l) : fs'.find? l = fs.find? l :=
  (h l hl).resolve_right fun hmade => hdirectory hmade.2.2

theorem contentsAt_eq (h : ChangesOnly changed made fs fs') (hl : l ∉ changed) :
    fs'.contentsAt l = fs.contentsAt l := by
  rcases h l hl with hsame | ⟨hnone, -, mode, hdirectory⟩
  · rw [contentsAt, contentsAt, hsame]
  · rw [contentsAt, contentsAt, hnone, hdirectory]

end ChangesOnly

/-- Only directories come about, at places that `made` allows. -/
structure Makes (made : Location → Prop) (fs fs' : FileSystem) : Prop where
  grows : Grows fs fs'
  changesOnly : ChangesOnly [] made fs fs'

namespace Makes

variable {made : Location → Prop}

theorem refl (made : Location → Prop) (fs : FileSystem) : Makes made fs fs :=
  ⟨.refl fs, .refl [] made fs⟩

theorem trans (h : Makes made fs fs') (h' : Makes made fs' fs'') : Makes made fs fs'' :=
  ⟨h.grows.trans h'.grows, h.changesOnly.trans h'.changesOnly⟩

/-- The step: a directory where nothing was. -/
theorem put (hmade : made l) (hnone : fs.find? l = none) (mode : Mode) :
    Makes made fs (fs.put l (.directory mode)) := by
  refine ⟨.put fun _ => ⟨mode, rfl⟩, fun l' _ => ?_⟩
  by_cases h : l' = l
  · subst h
    exact .inr ⟨hnone, hmade, mode, find?_put_self ..⟩
  · exact .inl (by rw [find?_put, if_neg h])

end Makes

theorem makeDirectory_eq_ok (h : fs.makeDirectory path = .ok fs') :
    fs.find? (fs.place path) = none ∧ ∃ mode, fs' = fs.put (fs.place path) (.directory mode) := by
  rw [makeDirectory, bind_eq_ok_iff] at h
  obtain ⟨l, hreach, h⟩ := h
  obtain rfl : l = fs.place path := (reach_eq_ok_iff.1 hreach).2.2
  rw [throw_if_eq_ok_iff] at h
  obtain ⟨hnone, h⟩ := h
  exact ⟨by simpa using hnone, _, (Except.ok.inj h).symm⟩

/-! ### Places on the way -/

/-- One of the places that the steps of a path lead through, the last one included. -/
def OnTheWay (fs : FileSystem) (path : Text) (l : Location) : Prop :=
  ∃ names, names <+: Path.steps path ∧ l = names.foldl follow (fs.origin path)

theorem onTheWay_place (fs : FileSystem) (path : Text) : fs.OnTheWay path (fs.place path) :=
  ⟨Path.steps path, List.prefix_refl _, rfl⟩

theorem foldl_follow_filter (l : Location) (names : List Text) :
    (names.filter (· ≠ Path.here)).foldl follow l = names.foldl follow l := by
  induction names generalizing l with
  | nil => rfl
  | cons name names ih =>
      by_cases h : name = Path.here
      · subst h
        rw [List.filter_cons_of_neg (by simp), ih, List.foldl_cons, follow, if_pos rfl]
      · rw [List.filter_cons_of_pos (by simpa using h), List.foldl_cons, List.foldl_cons, ih]

theorem mem_steps {name : Text} (h : name ∈ Path.steps path) : name ≠ [] ∧ '/' ∉ name := by
  obtain ⟨hmem, hne⟩ := List.mem_filter.1 h
  exact ⟨by simpa using hne, Text.not_mem_of_mem_splitOn hmem⟩

/-- A path made of steps has these steps, and starts where it is told to. -/
theorem steps_ofSteps {names : List Text} (absolute : Bool) (hne : names ≠ [])
    (hnames : ∀ name ∈ names, name ≠ [] ∧ '/' ∉ name) :
    Path.steps (Path.ofSteps absolute names) = names ∧
      Path.isAbsolute (Path.ofSteps absolute names) = absolute := by
  have hsplit : (Text.join ['/'] names).splitOn '/' = names :=
    List.splitOn_intercalate '/' (fun name h => (hnames name h).2) hne
  have hfilter : names.filter (fun name => !name.isEmpty) = names :=
    List.filter_eq_self.2 fun name h => by simpa using (hnames name h).1
  have hsteps : Path.steps (Text.join ['/'] names) = names := by
    rw [Path.steps, hsplit, hfilter]
  cases absolute with
  | true =>
      refine ⟨?_, rfl⟩
      show Path.steps ([] ++ '/' :: Text.join ['/'] names) = names
      rw [Path.steps_append_slash, hsteps, Path.steps_nil, List.nil_append]
  | false =>
      refine ⟨hsteps, ?_⟩
      obtain ⟨name, rest, rfl⟩ := List.exists_cons_of_ne_nil hne
      obtain ⟨hname, hslash⟩ := hnames name List.mem_cons_self
      obtain ⟨c, name, rfl⟩ := List.exists_cons_of_ne_nil hname
      have hc : c ≠ '/' := fun h => hslash (h ▸ List.mem_cons_self)
      have hhead : (Text.join ['/'] ((c :: name) :: rest)).head? = some c := by
        cases rest <;> simp [Text.join]
      simp [Path.ofSteps, Path.isAbsolute, hhead, hc]

theorem onTheWay_of_mem_ancestors {above : Text} (h : above ∈ Path.ancestors path) :
    fs.OnTheWay path (fs.place above) := by
  obtain ⟨count, hcount, rfl⟩ := List.mem_map.1 h
  let names := (Path.steps path).filter (· ≠ Path.here)
  have hrange : 1 ≤ count ∧ count < 1 + (names.length - 1) :=
    List.mem_range'_1.1 (List.mem_reverse.1 hcount)
  have hne : names.take count ≠ [] := by
    rw [Ne, List.take_eq_nil_iff, ← List.length_eq_zero_iff]
    omega
  have hnames : ∀ name ∈ names.take count, name ≠ [] ∧ '/' ∉ name := fun name hname =>
    mem_steps (List.mem_of_mem_filter (List.mem_of_mem_take hname))
  obtain ⟨hsteps, habsolute⟩ := steps_ofSteps (Path.isAbsolute path) hne hnames
  -- the first steps that are not `here` are those of the path up to some step
  obtain ⟨front, hfront, htake⟩ := List.prefix_filter_iff.1 (List.take_prefix count names)
  refine ⟨front, hfront, ?_⟩
  rw [place, hsteps, origin, habsolute, htake, foldl_follow_filter]
  rfl

/-! ### Runs -/

namespace Change

variable {α β : Type} {x : Change α} {f : α → Change β}

theorem run_bind (x : Change α) (f : α → Change β) (fs : FileSystem) :
    (x >>= f).run.run fs =
      match x.run.run fs with
      | (.ok a, fs') => (f a).run.run fs'
      | (.error e, fs') => (.error e, fs') := by
  rw [ExceptT.run_bind, StateT.run_bind]
  rcases x.run.run fs with ⟨a | a, fs'⟩ <;> rfl

theorem run_bind_of_ok {a : α} (h : x.run.run fs = (.ok a, fs')) :
    (x >>= f).run.run fs = (f a).run.run fs' :=
  run_run_bind_of_ok h

theorem run_bind_of_error {e : KeyError} (h : x.run.run fs = (.error e, fs')) :
    (x >>= f).run.run fs = (.error e, fs') := by
  rw [run_bind, h]

theorem run_bind_eq_ok_iff {b : β} :
    (x >>= f).run.run fs = (.ok b, fs'') ↔
      ∃ a fs', x.run.run fs = (.ok a, fs') ∧ (f a).run.run fs' = (.ok b, fs'') := by
  rw [run_bind]
  rcases x.run.run fs with ⟨e | a, fs'⟩
  · exact ⟨nofun, nofun⟩
  · constructor
    · intro h
      exact ⟨a, fs', rfl, h⟩
    · rintro ⟨a', fs', hx, h⟩
      cases hx
      exact h

theorem run_act_of_ok {a : Action} (h : fs.apply a = .ok fs') :
    (act a).run.run fs = (.ok (), fs') := by
  rw [run_act, h]

theorem run_act_eq_ok_iff {a : Action} :
    (act a).run.run fs = (.ok (), fs') ↔ fs.apply a = .ok fs' := by
  rw [run_act]
  cases fs.apply a with
  | error fault => exact ⟨nofun, nofun⟩
  | ok next => exact ⟨fun h => congrArg Except.ok (Prod.mk.inj h).2, fun h => by cases h; rfl⟩

theorem run_look (see : FileSystem → Except Fault α) (fs : FileSystem) :
    (look see).run.run fs =
      match see fs with
      | .ok a => (.ok a, fs)
      | .error fault => (.error (.io fault), fs) := by
  show (match see fs with
    | .ok a => return a
    | .error fault => throw (.io fault) : Change α).run.run fs = _
  split <;> rfl

/-! ### Making directories -/

theorem run_settle (path : Text) (fs : FileSystem) :
    (settle path).run.run fs =
      match fs.makeDirectory path with
      | .ok fs' => (.ok (), fs')
      | .error fault => (if fs.isDirectory path then .ok () else .error (.io fault), fs) := by
  show (match fs.makeDirectory path with
    | .ok fs' => set fs'
    | .error fault => do unless (← get).isDirectory path do throw (.io fault)
      : Change Unit).run.run fs = _
  split
  · rfl
  · show (if fs.isDirectory path then pure () else throw _ : Change Unit).run.run fs = _
    split <;> rfl

theorem run_settleUnder_cons (path : Text) (above : List Text) (fs : FileSystem) :
    (settleUnder (path :: above)).run.run fs =
      match fs.makeDirectory path with
      | .error .notFound => (settleUnder above >>= fun _ => settle path).run.run fs
      | _ => (settle path).run.run fs := by
  show (match fs.makeDirectory path with
    | .error .notFound => settleUnder above >>= fun _ => settle path
    | _ => settle path : Change Unit).run.run fs = _
  split <;> rfl

variable {made : Location → Prop}

theorem makes_settle (h : made (fs.place path)) :
    Makes made fs ((settle path).run.run fs).2 := by
  rw [run_settle]
  split
  · rename_i fs' hmake
    obtain ⟨hnone, mode, rfl⟩ := makeDirectory_eq_ok hmake
    exact .put h hnone mode
  · exact .refl made fs

/-- The run: places are the same in every state on the way. -/
theorem makes_settleUnder {paths : List Text} (h : ∀ path ∈ paths, made (fs.place path)) :
    Makes made fs ((settleUnder paths).run.run fs).2 := by
  induction paths generalizing fs with
  | nil => exact .refl made fs
  | cons path above ih =>
      have hpath : made (fs.place path) := h path List.mem_cons_self
      have habove := ih fun p hp => h p (List.mem_cons_of_mem _ hp)
      rw [run_settleUnder_cons]
      split
      · rcases hrun : (settleUnder above).run.run fs with ⟨e | u, fs'⟩
        · rw [run_bind_of_error hrun]
          rwa [hrun] at habove
        · rw [run_bind_of_ok hrun]
          rw [hrun] at habove
          rw [← habove.grows.place_eq path] at hpath
          exact habove.trans (makes_settle hpath)
      · exact makes_settle hpath

/-- Making a directory makes directories on its path, and nothing else. -/
theorem makes_settleAll (path : Text) (fs : FileSystem) :
    Makes (fs.OnTheWay path) fs ((settleAll path).run.run fs).2 := by
  unfold settleAll
  split
  · exact .refl _ fs
  · apply makes_settleUnder
    intro p hp
    rcases List.mem_cons.1 hp with rfl | hp
    · exact onTheWay_place fs p
    · exact onTheWay_of_mem_ancestors hp

end Change

end SshKeys.FileSystem
