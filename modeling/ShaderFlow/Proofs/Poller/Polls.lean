import ShaderFlow.Proofs.Cli.Step

set_option autoImplicit false

/-
A poll compiles its file when the file's time of change is not the one recorded last. Whatever the
file holds, loading and evaluating it fail only in ways that the poll reports, so that it answers
with a source or with none. What a poller has recorded is the time of the file as it was last there.
-/

namespace ShaderFlow

open ShaderFlow.Graph

theorem Logged.outcome_tryCatch {α : Type} (first : Logged α) (handle : Error → Logged α) :
    (tryCatch first handle).outcome = first.outcome.tryCatch fun e => (handle e).outcome := by
  simp only [tryCatch, MonadExcept.tryCatch]
  cases first.outcome <;> rfl

theorem Error.isGraph_of_isMalformed {e : Error} (malformed : e.isMalformed = true) :
    e.isGraph = true := by
  cases e <;> simp_all [isGraph, isMalformed]

namespace Files

variable {fs fs' : Files} {p : Path} {bytes : List UInt8} {time : Int}

/-- What has a time of change is a file, which is found and can be read. -/
theorem found_of_modified? (modified : fs.modified? p = some time) :
    fs.contains p = .ok true ∧ ∃ bytes, fs.read p = .ok bytes := by
  unfold modified? find? at modified
  cases located : fs.place p with
  | error fault => simp [located] at modified
  | ok place =>
    cases entry : fs.at? place with
    | none => simp [located, entry] at modified
    | some found =>
      cases found with
      | directory => simp [located, entry] at modified
      | file bytes _ => simp [contains, read, located, entry]

theorem exists_modified? (read : fs.read p = .ok bytes) : ∃ time, fs.modified? p = some time := by
  unfold Files.read at read
  unfold modified? find?
  cases located : fs.place p with
  | error fault => simp [located, fail] at read
  | ok place =>
    cases entry : fs.at? place with
    | none => simp [located, entry, fail] at read
    | some found =>
      cases found with
      | directory => simp [located, entry, fail] at read
      | file bytes' time => exact ⟨time, by simp [entry]⟩

/-- A file that was written has the time that it was given. -/
theorem modified?_write (written : fs.write p bytes time = .ok fs') :
    fs'.modified? p = some time := by
  obtain ⟨place, opens, rfl⟩ := write_eq_ok_iff.mp written
  unfold modified? find?
  rw [(opens.put bytes time).located]
  simp only [at?_put opens.named, if_true]

end Files

namespace Cli

/-- The source that the graph in a file compiles to. -/
def source? (fs : Files) (file : Path) (target : Target) (sink : Option Int) : Option String :=
  (graph? fs file).bind fun g => (g.evaluate target (sink.map .int) false).outcome.toOption

/-- A file that compiles is there, with a time, and what it holds can be read. -/
theorem readable_of_source? {fs : Files} {file : Path} {target : Target} {sink : Option Int}
    {source : String} (compiles : source? fs file target sink = some source) :
    (∃ time, fs.modified? file = some time) ∧ (fs.contains file).isOk = true ∧
      ∀ bytes, fs.read file = .ok bytes → (Store.readValue bytes).isOk = true := by
  obtain ⟨g, found, -⟩ := Option.bind_eq_some_iff.mp compiles
  obtain ⟨document, held, -⟩ := Option.bind_eq_some_iff.mp found
  obtain ⟨bytes, members, read, value, -⟩ := Store.document?_eq_some_iff.mp held
  obtain ⟨time, modified⟩ := Files.exists_modified? read
  refine ⟨⟨time, modified⟩, ?_, fun bytes' again => ?_⟩
  · rw [(Files.found_of_modified? modified).1]
    rfl
  · rw [read] at again
    cases again
    rw [value]
    rfl

end Cli

theorem Cli.source?_of_plainSource? {target : Target} {sink : Int} {text : String} {fs : Files}
    {file : Path}
    (plain : ((graph? fs file).bind fun g => g.plainSource? target sink) = some text) :
    source? fs file target none = some text := by
  obtain ⟨g, found, plain⟩ := Option.bind_eq_some_iff.mp plain
  obtain ⟨document, -, loaded⟩ := Option.bind_eq_some_iff.mp found
  have depicts := Document.depicts_of_ofDocument Document.checks_builtin
    (Outcome.toOption_eq_some_iff.mp loaded)
  rw [source?, found, Option.bind_some, Option.map_none,
    evaluate_of_plainSource? depicts.sound depicts.registry_eq depicts.writable plain]
  rfl

namespace Graph

/-- The evaluation of a graph that was loaded fails as an evaluation does, or on a selector that has
too many digits to be written. -/
theorem evaluate_fault_of_loaded {document : Json} {g : Graph Int}
    (loaded : (Graph.ofDocument .builtin document).outcome = .ok g) {target : Target}
    {sink : Option Int} {e : Error}
    (failed : (g.evaluate target (sink.map .int) false).outcome = .error e) :
    e.isEvaluation = true ∨ e = unwritable ∧ ∃ id ∈ sink, ¬ Writable id := by
  have depicts := Document.depicts_of_ofDocument Document.checks_builtin loaded
  obtain ⟨ids, answer, answers, evaluated⟩ :=
    outcome_evaluate_eq depicts.sound depicts.registry_eq target sink
  rw [failed] at evaluated
  rcases writing_cases ids answer with ⟨-, same⟩ | ⟨⟨id, member, long⟩, same⟩
  · rw [same] at evaluated
    subst evaluated
    exact .inl answers.isEvaluation
  · rw [same] at evaluated
    cases evaluated
    rcases answers.mem_ids depicts.sound id member with inside | selected
    · exact absurd (depicts.writable id inside) long
    · exact .inr ⟨rfl, id, selected, long⟩

end Graph

namespace Poller

variable {p : Poller} {fs : Files} {sink : Option Int}

/-- Compiling a file whose values can be read gives its source if it has one, and otherwise none.
The one thing that it does not report itself is a selector that cannot be written. -/
theorem compile_cases (asks : p.selector = sink.map .int)
    (findable : (fs.contains p.file).isOk = true)
    (readable : ∀ bytes, fs.read p.file = .ok bytes → (Store.readValue bytes).isOk = true) :
    (p.compile fs).outcome = .ok (Cli.source? fs p.file p.target sink) ∨
      (p.compile fs).outcome = .error unwritable ∧ Cli.source? fs p.file p.target sink = none ∧
        ∃ id ∈ sink, ¬ Writable id := by
  simp only [compile, asks, Logged.outcome_bind, Logged.outcome_tell, Outcome.ok_bind,
    Store.outcome_load findable readable, Cli.source?, Cli.graph?]
  cases Store.document? fs p.file with
  | none => exact .inl rfl
  | some document =>
    simp only [Logged.outcome_tryCatch, Logged.outcome_bind, Option.bind_some]
    cases loaded : (Graph.ofDocument .builtin document : Logged (Graph Int)).outcome with
    | error e =>
      -- A document that is refused is malformed, which is one of the failures that a poll reports.
      have malformed := Document.isMalformed_of_ofDocument Document.checks_builtin loaded
      have known := Error.isGraph_of_isMalformed malformed
      left
      simp only [Outcome.error_bind, Except.tryCatch, known, Bool.true_or, if_true]
      rfl
    | ok g =>
      simp only [Outcome.ok_bind, Except.toOption, Option.bind_some]
      cases evaluated : (g.evaluate p.target (sink.map .int) false).outcome with
      | ok source => exact .inl rfl
      | error e =>
        rcases evaluate_fault_of_loaded loaded evaluated with known | ⟨rfl, long⟩
        · left
          simp only [Outcome.error_bind, Except.tryCatch, known, Bool.or_true, if_true]
          rfl
        · exact .inr ⟨rfl, rfl, long⟩

/-- The first half of a poll: the poller with a new time of change recorded, if there is one. -/
def notice (p : Poller) (fs : Files) : Option Poller :=
  match fs.modified? p.file with
  | none => none
  | some time => if p.seen = some time then none else some { p with seen := some time }

theorem notice_eq_some_iff {q : Poller} : p.notice fs = some q ↔ ∃ time,
    fs.modified? p.file = some time ∧ p.seen ≠ some time ∧ q = { p with seen := some time } := by
  unfold notice
  cases fs.modified? p.file with
  | none => simp
  | some time =>
    by_cases same : p.seen = some time
    · simp [same]
    · simp [same, eq_comm]

/-- A poll looks for a new time of change, and compiles the file if it finds one. -/
theorem poll_eq (p : Poller) (fs : Files) :
    p.poll fs = (p.notice fs).elim (p, pure none) fun q => (q, q.compile fs) := by
  unfold poll notice
  cases fs.modified? p.file with
  | none => rfl
  | some time =>
    dsimp only
    split
    · rfl
    · rfl

/-- Every file that is there has its time recorded. -/
theorem seen_poll (p : Poller) (fs : Files) :
    (p.poll fs).1.seen = (fs.modified? p.file).or p.seen := by
  unfold poll
  cases fs.modified? p.file with
  | none => rfl
  | some time =>
    dsimp only
    split
    · rename_i same
      rw [same, Option.some_or]
    · rfl

/-- A poll changes nothing else about the poller. -/
theorem poll_keeps (p : Poller) (fs : Files) :
    (p.poll fs).1.file = p.file ∧ (p.poll fs).1.target = p.target ∧
      (p.poll fs).1.selector = p.selector := by
  rw [poll_eq]
  cases noticed : p.notice fs with
  | none => exact ⟨rfl, rfl, rfl⟩
  | some q =>
    obtain ⟨time, -, -, rfl⟩ := notice_eq_some_iff.mp noticed
    exact ⟨rfl, rfl, rfl⟩

/-- The poller after polls of some trees in turn. -/
def after (p : Poller) (trees : List Files) : Poller := trees.foldl (fun p fs => (p.poll fs).1) p

theorem after_snoc (p : Poller) (trees : List Files) (fs : Files) :
    p.after (trees ++ [fs]) = ((p.after trees).poll fs).1 := by
  simp [after]

theorem after_keeps (p : Poller) (trees : List Files) :
    (p.after trees).file = p.file ∧ (p.after trees).target = p.target ∧
      (p.after trees).selector = p.selector := by
  induction trees using List.reverseRecOn with
  | nil => exact ⟨rfl, rfl, rfl⟩
  | append_singleton trees fs ih =>
    obtain ⟨file, target, selector⟩ := poll_keeps (p.after trees) fs
    rw [after_snoc, file, target, selector]
    exact ih

/-- What is recorded is the time of the file when it was last there. -/
theorem seen_after (p : Poller) (trees : List Files) : (p.after trees).seen =
    (trees.reverse.findSome? fun fs => fs.modified? p.file).or p.seen := by
  induction trees using List.reverseRecOn with
  | nil => rfl
  | append_singleton trees fs ih =>
    rw [after_snoc, seen_poll, (after_keeps p trees).1, ih, List.reverse_append,
      List.reverse_singleton, List.singleton_append, List.findSome?_cons]
    cases fs.modified? p.file with
    | none => rfl
    | some time => rfl

/-- Polls of any trees in turn. Nothing that a file holds makes a poll fail; only a selector that
cannot be written does. A poll gives a source exactly when the file is there with another time than
when it was last there before, and compiles, and then it gives what the file compiles to. It records
the time of every file that is there, whether or not it gave a source. -/
theorem poll_gives_changed_source {fs₀ : Files} {file : Path} {target : Target} {sink : Option Int}
    {before : List Files} {p : Poller} {fs : Files}
    (polled : (start fs₀ file target (sink.map .int)).after before = p)
    (readable : ∀ bytes, fs.read file = .ok bytes → (Store.readValue bytes).isOk = true) :
    p.seen = (fs₀ :: before).reverse.findSome? (fun fs => fs.modified? file) ∧
      (p.poll fs).1.seen = (fs.modified? file).or p.seen ∧
      (∀ e, (p.poll fs).2.outcome = .error e → e = unwritable ∧ ∃ id ∈ sink, ¬ Writable id) ∧
      ∀ source, (p.poll fs).2.outcome = .ok (some source) ↔
        ∃ time, fs.modified? file = some time ∧ p.seen ≠ some time ∧
          Cli.source? fs file target sink = some source := by
  obtain ⟨sameFile, sameTarget, asks⟩ := after_keeps (start fs₀ file target (sink.map .int)) before
  have recorded := seen_after (start fs₀ file target (sink.map .int)) before
  rw [polled] at sameFile sameTarget asks recorded
  change p.file = file at sameFile
  change p.target = target at sameTarget
  change p.selector = sink.map .int at asks
  subst sameFile sameTarget
  refine ⟨?_, seen_poll p fs, ?_⟩
  · rw [recorded, List.reverse_cons, List.findSome?_append]
    congr 1
    simp [start]
  rw [poll_eq]
  cases noticed : p.notice fs with
  | none =>
    refine ⟨by simp, fun source => ⟨by simp, ?_⟩⟩
    rintro ⟨time, present, other, -⟩
    rw [notice_eq_some_iff.mpr ⟨time, present, other, rfl⟩] at noticed
    cases noticed
  | some q =>
    obtain ⟨time, present, other, rfl⟩ := notice_eq_some_iff.mp noticed
    have findable : (fs.contains p.file).isOk = true := by
      rw [(Files.found_of_modified? present).1]
      rfl
    have compiles := @compile_cases { p with seen := some time } fs sink asks findable readable
    simp only [Option.elim_some]
    rcases compiles with compiled | ⟨failed, sourceless, long⟩
    · rw [compiled]
      refine ⟨by simp, fun source => ?_⟩
      rw [Except.ok.injEq]
      constructor
      · exact fun same => ⟨time, present, other, same⟩
      · rintro ⟨-, -, -, same⟩
        exact same
    · rw [failed, sourceless]
      refine ⟨?_, by simp⟩
      intro e same
      cases same
      exact ⟨rfl, long⟩

/-- The bytes of a document with these nodes. -/
def documentBytes (nodes : String) : List UInt8 :=
  ("\x7b\"id\":\"shadergraph@0.1.0\",\"nodes\":\x7b" ++ nodes ++ "\x7d\x7d").toList.map
    fun c => UInt8.ofNat c.toNat

/-- A canvas that is given a color. -/
def coolBytes : List UInt8 := documentBytes
  ("\"1\":\x7b\"id\":1,\"name\":\"Canvas\",\"inputs\":\x7b\"color\":\x7b\"connections\":" ++
      "[\x7b\"node\":0,\"output\":\"color\"\x7d]\x7d\x7d\x7d," ++
    "\"0\":\x7b\"id\":0,\"name\":\"Cool Color\"\x7d")

/-- A tree with one file. -/
def lone (bytes : List UInt8) (time : Int) : Files := { entries := [(["g"], .file bytes time)] }

/-- The source with one line. -/
def oneLine (line : String) : String :=
  "\n".intercalate (Target.opengl33.preamble ++ ["", "void main() \x7b", line, "\x7d"])

theorem source?_coolBytes : Cli.source? (lone coolBytes 3) ⟨"", ["g"]⟩ .opengl33 none =
    some (oneLine "    fragColor = vec4(0.0, 0.7, 0.7, 1.0);") :=
  @Cli.source?_of_plainSource? .opengl33 1 _ _ _ (by decide +kernel)

/-- The file is written, broken, removed and repaired. -/
theorem poll_gives_changed_source_repaired :
    ∃ p, (start {} ⟨"", ["g"]⟩ .opengl33 none).after [lone coolBytes 1, lone [123] 2, {}] = p ∧
      p.seen = some 2 ∧ (p.poll (lone coolBytes 3)).1.seen = some 3 ∧
      (p.poll (lone coolBytes 3)).2.outcome =
        .ok (some (oneLine "    fragColor = vec4(0.0, 0.7, 0.7, 1.0);")) := by
  have readable := (Cli.readable_of_source? source?_coolBytes).2.2
  obtain ⟨seen, records, -, gives⟩ := @poll_gives_changed_source {} ⟨"", ["g"]⟩ .opengl33 none
    [lone coolBytes 1, lone [123] 2, {}] _ (lone coolBytes 3) rfl readable
  refine ⟨_, rfl, seen, records, (gives _).mpr ⟨3, rfl, ?_, source?_coolBytes⟩⟩
  intro same
  cases seen.symm.trans same

end Poller

end ShaderFlow
