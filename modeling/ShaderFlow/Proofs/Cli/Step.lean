import ShaderFlow.Cli.Run
import ShaderFlow.Proofs.Evaluation.Totality
import ShaderFlow.Proofs.Files
import ShaderFlow.Proofs.Graph.Acceptance

set_option autoImplicit false

/-
Up to the point where it gives something out, a command reads: each of its steps gives a value, or
reports a problem and ends the command. Neither changes a file or prints anything, and which of them
happens is settled by the files and what the command was given.
-/

namespace ShaderFlow

open ShaderFlow.Graph Work

namespace Config

/-- A target that is chosen does not matter for whether the settings are valid. -/
theorem update_target (c : Config) (target : Option Target) :
    c.update { target } = (c.update {}).map fun c' =>
      { c' with target := target.getD c.target } := by
  simp only [update, Bool.false_eq_true, if_false, Option.map_none, Option.getD_none,
    Outcome.ok_bind]
  cases checkSide c.size 0 with
  | error e => rfl
  | ok _ =>
    cases checkSide c.size 1 with
    | error e => rfl
    | ok _ =>
      simp only [Outcome.ok_bind]
      cases c.fps.isNegative with
      | true => rfl
      | false =>
        cases c.camera.isNegative with
        | true => rfl
        | false => rfl

theorem isOk_ofEnvironment (environment : Members) (target : Option Target) :
    (ofEnvironment environment { target }).isOk = (ofEnvironment environment {}).isOk := by
  -- The same settings are read before the target is taken over.
  have congr : ∀ (first : Except Error Config) (f f' : Config → Except Error Config),
      (∀ c, (f c).isOk = (f' c).isOk) → (first >>= f).isOk = (first >>= f').isOk := by
    intro first f f' same
    cases first with
    | error e => rfl
    | ok c => exact same c
  refine congr _ _ _ fun c => congr _ _ _ fun c => congr _ _ _ fun c => congr _ _ _ fun c => ?_
  rw [update_target]
  cases c.update {} <;> rfl

end Config

namespace Store

/-- The document that a file holds. -/
def document? (fs : Files) (p : Path) : Option Json :=
  match fs.read p with
  | .error _ => none
  | .ok bytes =>
    match readValue bytes with
    | .ok (.ok (.obj members)) => some (.obj members)
    | _ => none

theorem document?_eq_some_iff {fs : Files} {p : Path} {document : Json} :
    document? fs p = some document ↔ ∃ bytes members, fs.read p = .ok bytes ∧
      readValue bytes = .ok (.ok (.obj members)) ∧ document = .obj members := by
  unfold document?
  constructor
  · intro found
    split at found
    · cases found
    · rename_i bytes read
      split at found
      · rename_i members value
        cases found
        exact ⟨bytes, members, read, value, rfl⟩
      · cases found
  · rintro ⟨bytes, members, read, value, rfl⟩
    rw [read]
    dsimp only
    rw [value]

/-- A file whose values can be read is loaded if it holds a document. -/
theorem outcome_load {fs : Files} {p : Path} (findable : (fs.contains p).isOk = true)
    (readable : ∀ bytes, fs.read p = .ok bytes → (readValue bytes).isOk = true) :
    (load fs p).outcome = .ok (document? fs p) := by
  cases contained : fs.contains p with
  | error e =>
    rw [contained] at findable
    cases findable
  | ok found =>
    rw [load, contained, Logged.liftM_ok_bind, document?]
    cases found with
    | false =>
      obtain ⟨e, failed⟩ := Files.exists_read_error contained
      rw [failed]
      rfl
    | true =>
      cases read : fs.read p with
      | error e => rfl
      | ok bytes =>
        have readable := readable bytes read
        cases value : readValue bytes with
        | error e =>
          rw [value] at readable
          cases readable
        | ok v =>
          simp only [Bool.not_true, Bool.false_eq_true, if_false, value, Logged.liftM_ok_bind]
          cases v with
          | error reason => rfl
          | ok v => cases v <;> rfl

end Store

namespace Cli

variable {α β : Type} {m : CommandM α} {f : α → CommandM β} {s s' : State} {fs : Files}

/-- A step gives its answer, or without one ends the command. It changes no file and prints nothing.
-/
def Settles (fs : Files) (m : CommandM α) (answer : Option α) : Prop :=
  ∀ s, s.files = fs → ∃ s', s'.files = fs ∧ s'.printed = s.printed ∧
    m.run s = (answer.elim (.error (.exit 1)) .ok, s')

theorem Settles.bind {answer : Option α} {next : α → Option β} (first : Settles fs m answer)
    (then_ : ∀ a, answer = some a → Settles fs (f a) (next a)) :
    Settles fs (m >>= f) (answer.bind next) := by
  intro s same
  obtain ⟨s₁, same₁, printed₁, ran₁⟩ := first s same
  cases answer with
  | none => exact ⟨s₁, same₁, printed₁, run_bind_error ran₁⟩
  | some a =>
    obtain ⟨s₂, same₂, printed₂, ran₂⟩ := then_ a rfl s₁ same₁
    exact ⟨s₂, same₂, printed₂.trans printed₁, (run_bind_ok ran₁).trans ran₂⟩

theorem settles_pure (fs : Files) (a : α) : Settles fs (pure a) (some a) :=
  fun s same => ⟨s, same, rfl, rfl⟩

theorem settles_report (fs : Files) (events : List Event) :
    Settles fs (report events) (some ()) := by
  intro s same
  refine ⟨_, ?_, ?_, rfl⟩
  · exact same
  · rfl

theorem settles_refuse (fs : Files) (event : Event) :
    Settles fs (refuse event : CommandM α) none := by
  intro s same
  refine ⟨_, ?_, ?_, rfl⟩
  · exact same
  · rfl

theorem settles_absorb (fs : Files) (work : Logged α) :
    Settles fs (absorb work) (some work.outcome) := by
  intro s same
  refine ⟨_, ?_, ?_, rfl⟩
  · exact same
  · rfl

/-- After a step that always gives its value comes the next one. -/
theorem Settles.next {a : α} {answer : Option β} (first : Settles fs m (some a))
    (second : Settles fs (f a) answer) : Settles fs (m >>= f) answer := by
  have both : Settles fs (m >>= f) ((some a).bind fun _ => answer) := by
    refine first.bind fun b same => ?_
    cases same
    exact second
  exact both

/-- A step may look at the files as they are. -/
theorem settles_get {next : State → CommandM α} {answer : Option α}
    (each : ∀ s, s.files = fs → Settles fs (next s) answer) :
    Settles fs (get >>= next) answer :=
  fun s same => each s same s same

/-- The environment as it is read. -/
def World.settings (world : World) : Members := world.environment.map fun v => (v.1, .str v.2)

/-- The configuration with a target over it. -/
def configuration (world : World) (target : Except Error (Option Target)) :
    Except Error Config := do
  Config.ofEnvironment world.settings { target := ← target }

theorem settles_configure (fs : Files) (world : World) (target : Except Error (Option Target)) :
    Settles fs (configure world target {}) (configuration world target).toOption := by
  unfold configure
  dsimp only
  split
  · rename_i c outcome
    have same : configuration world target = .ok c := outcome
    rw [same]
    exact settles_pure fs c
  · rename_i e outcome
    have same : configuration world target = .error e := outcome
    rw [same]
    exact settles_refuse fs _

/-- The graph in a file. -/
def graph? (fs : Files) (file : Path) : Option (Graph Int) :=
  (Store.document? fs file).bind fun document =>
    (Graph.ofDocument .builtin document).outcome.toOption

theorem settles_readGraph {file : Path} (findable : (fs.contains file).isOk = true)
    (readable : ∀ bytes, fs.read file = .ok bytes → (Store.readValue bytes).isOk = true) :
    Settles fs (readGraph file) (graph? fs file) := by
  unfold readGraph graph?
  refine settles_get fun s same => ?_
  rw [same]
  refine (settles_absorb fs _).next ?_
  rw [Store.outcome_load findable readable]
  refine (settles_pure fs (Store.document? fs file)).next ?_
  cases Store.document? fs file with
  | none => exact settles_refuse fs _
  | some document =>
    refine (settles_absorb fs _).next ?_
    rw [Option.bind_some]
    cases loaded : (Graph.ofDocument .builtin document : Logged (Graph Int)).outcome with
    | ok g => exact settles_pure fs g
    | error e =>
      have malformed := Document.isMalformed_of_ofDocument Document.checks_builtin loaded
      dsimp only
      rw [if_pos malformed]
      exact settles_refuse fs _

theorem settles_generate {g : Graph Int} {target : Target} {sink : Option Int}
    (known : ∀ e, (g.evaluate target (sink.map .int) false).outcome = .error e →
      e.isEvaluation = true) :
    Settles fs (generate g target sink)
      (g.evaluate target (sink.map .int) false).outcome.toOption := by
  unfold generate
  refine (settles_absorb fs _).next ?_
  cases outcome : (g.evaluate target (sink.map .int) false).outcome with
  | ok source => exact settles_pure fs source
  | error e =>
    dsimp only
    rw [known e outcome, Bool.or_true, if_pos rfl]
    exact settles_refuse fs _

/-- Integers given as options are read from their texts. -/
theorem int?_cases {p : Parsed} {long : String} {n : Option Int} (read : p.int? long = .ok n) :
    ∀ k ∈ n, ∃ s, readInteger? s = some k := by
  intro k member
  unfold Parsed.int? Parsed.read? at read
  split at read
  · cases read
    cases member
  · split at read
    · rename_i a given
      cases read
      cases member
      exact ⟨_, given⟩
    · cases read

theorem lt_of_digits? {cs : List Char} {n : Nat} (read : digits? cs = some n) :
    n < Nat.pow 10 Text.integerDigitLimit := by
  unfold digits? at read
  dsimp only at read
  split at read
  · rename_i fits
    cases read
    simp only [Bool.and_eq_true, decide_eq_true_eq, List.all_eq_true] at fits
    obtain ⟨⟨⟨-, short⟩, -⟩, digits⟩ := fits
    have each : ∀ d ∈ cs.map (·.toNat - '0'.toNat), d < 10 := by
      intro d member
      obtain ⟨c, inside, rfl⟩ := List.mem_map.mp member
      have high : c.toNat ≤ '9'.toNat := (digits c inside).2
      have zero : '0'.toNat = 48 := rfl
      have nine : '9'.toNat = 57 := rfl
      omega
    have bound := Text.ofDigits_lt each
    have grows : ∀ limit, cs.length ≤ limit → Nat.pow 10 cs.length ≤ Nat.pow 10 limit :=
      fun _ => Nat.pow_le_pow_right (by decide)
    rw [List.length_map] at bound
    exact Nat.lt_of_lt_of_le bound (grows _ short)
  · cases read

/-- Integers of options have few enough digits to be written. -/
theorem writable_of_readInteger? {s : String} {n : Int} (read : readInteger? s = some n) :
    Writable n := by
  unfold readInteger? at read
  obtain ⟨signed, -, read⟩ := Option.bind_eq_some_iff.mp read
  obtain ⟨leading, -, read⟩ := Option.bind_eq_some_iff.mp read
  obtain ⟨body, -, read⟩ := Option.bind_eq_some_iff.mp read
  have digits : ∃ cs k, digits? cs = some k ∧ n.natAbs = k := by
    unfold signedDigits? at read
    split at read
    all_goals
      obtain ⟨m, found, rfl⟩ := Option.map_eq_some_iff.mp read
      obtain ⟨k, digits, same⟩ := Option.bind_eq_some_iff.mp found
      cases same
      exact ⟨_, k, digits, by simp⟩
  obtain ⟨cs, k, digits, size⟩ := digits
  rw [writable_iff, size]
  unfold Json.integerBound
  exact lt_of_digits? digits

/-- Finds out which events are shown. -/
def chooseLevel (world : World) (verbose : Bool) : CommandM Unit := do
  let level ← if verbose then pure Level.debug else do
    pure (← configure world (.ok none) {}).level
  modify fun s => { s with level }

theorem runLine_eq {world : World} {args rest : List String} {verbose : Bool} {name : String}
    {command : Command} (split : splitCommand args = .ok (verbose, name, rest))
    (parses : Command.parse name rest = .ok command) :
    runLine world args = chooseLevel world verbose >>= fun _ => runCommand world command := by
  cases verbose <;>
    simp only [runLine, split, parses, parsed, pure_bind, chooseLevel, bind_assoc, if_true,
      Bool.false_eq_true, if_false]

theorem settles_chooseLevel (fs : Files) (world : World) (verbose : Bool) :
    Settles fs (chooseLevel world verbose)
      (if verbose then some ()
        else (configuration world (.ok none)).toOption.bind fun _ => some ()) := by
  have shown : ∀ level, Settles fs (modify fun s => { s with level }) (some ()) := by
    intro level s same
    exact ⟨{ s with level }, same, rfl, rfl⟩
  cases verbose with
  | true => exact (settles_pure fs Level.debug).next (shown _)
  | false =>
    simp only [chooseLevel, Bool.false_eq_true, if_false, pure_bind]
    exact (settles_configure fs world (.ok none)).bind fun _ _ => shown _

/-- What a command finds before it runs. -/
def World.start (world : World) : State := { files := world.files, device := world.device }

theorem run_of_ok {world : World} {args : List String} {s : State}
    (ran : (runLine world args).run world.start = (.ok (), s)) : run world args = ⟨0, none, s⟩ := by
  rw [World.start] at ran
  rw [run, ran]

theorem run_of_exit {world : World} {args : List String} {s : State} {code : Nat}
    (ran : (runLine world args).run world.start = (.error (.exit code), s)) :
    run world args = ⟨code, none, s⟩ := by
  rw [World.start] at ran
  rw [run, ran]

theorem run_of_failure {world : World} {args : List String} {s : State} {e : Error}
    (ran : (runLine world args).run world.start = (.error (.failure e), s)) :
    run world args = ⟨1, some e, s⟩ := by
  rw [World.start] at ran
  rw [run, ran]

end Cli

end ShaderFlow
