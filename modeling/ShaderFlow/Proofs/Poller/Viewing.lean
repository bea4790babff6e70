import Mathlib.Logic.Function.Iterate
import ShaderFlow.Proofs.Poller.Polls

set_option autoImplicit false

/-
A viewing is a show command under way while others write its graph file. The command reads and
compiles the file, then records its time of change, and then polls; somebody may write the file
before each of these steps and between the two halves of a poll. Main statement: after the last
write the next poll brings the window up to date, unless that write came between the first reading
and the recording.
-/

namespace ShaderFlow

open ShaderFlow.Graph

/-- What a show command was asked to show. -/
structure Exhibit where
  file : Path
  target : Target
  sink : Option Int

namespace Exhibit

/-- The poller of the file with a recorded time. -/
def poller (x : Exhibit) (seen : Option Int) : Poller := ⟨x.file, x.target, x.sink.map .int, seen⟩

/-- The source that the file compiles to. -/
def source? (x : Exhibit) (fs : Files) : Option String := Cli.source? fs x.file x.target x.sink

variable {x : Exhibit} {fs : Files} {source : String}

/-- A poll of a file that compiles gives its source. -/
theorem outcome_compile (compiles : x.source? fs = some source) (seen : Option Int) :
    ((x.poller seen).compile fs).outcome = .ok (some source) := by
  obtain ⟨-, findable, readable⟩ := Cli.readable_of_source? compiles
  have held : Cli.source? fs x.file x.target x.sink = some source := compiles
  rcases @Poller.compile_cases (x.poller seen) fs x.sink rfl findable readable with
    compiled | ⟨-, sourceless, -⟩
  · rw [compiled]
    exact congrArg Except.ok held
  · cases held.symm.trans sourceless

end Exhibit

namespace Cli

/-- Reads a graph file and compiles it. -/
def compileFile (x : Exhibit) : CommandM String := do generate (← readGraph x.file) x.target x.sink

/-- Shows a source in a window, with a poller for new ones. -/
def present (world : World) (image : Option Path) (maxRuntime : Option Binary64) (config : Config)
    (source : String) (files : Files) (poller : Poller) : CommandM Unit := do
  let f ← match image with
    | some p => readImage p
    | none => throw (.failure .noFrame)
  let shown : Show := {
    source
    maxRuntime := maxRuntime.map .float
    frame := fun _ => pure f.toRaster
    size := [.int f.width, .int f.height]
    fps := config.fps.toJson
    newSource := some fun _ => (poller.poll files).2 }
  onDevice (shown.run (shown.roundBound world.device.surroundings))

/-- A show command compiles its file first, and only then starts the poller, which records the
file's time of change. -/
theorem runShow_eq (world : World) (file : Path) (image : Option Path)
    (camera sink fps : Option Int) (maxRuntime : Option Binary64) :
    runShow world file image camera sink fps maxRuntime = (do
      let config ← configure world (.ok (some .opengl33))
        { camera := camera.map .int, fps := fps.map .int }
      let source ← compileFile ⟨file, config.target, sink⟩
      let files := (← get).files
      present world image maxRuntime config source files
        (.start files file config.target (sink.map .int))) := by
  refine congrArg (configure world _ _ >>= ·) (funext fun config => ?_)
  exact (bind_assoc (readGraph file) _ _).symm

/-- A command gets the source of a file that compiles. -/
theorem run_compileFile {x : Exhibit} {s : State} {source : String}
    (compiles : x.source? s.files = some source) :
    ((compileFile x).run s).1 = .ok source := by
  obtain ⟨-, findable, readable⟩ := Cli.readable_of_source? compiles
  obtain ⟨g, found, evaluated⟩ := Option.bind_eq_some_iff.mp compiles
  have generates : Settles s.files (generate g x.target x.sink) (some source) := by
    rw [← evaluated]
    refine settles_generate fun e failed => ?_
    rw [failed] at evaluated
    cases evaluated
  have reads := settles_readGraph findable readable
  rw [found] at reads
  obtain ⟨s', -, -, ran⟩ :=
    Settles.next (f := fun g => generate g x.target x.sink) reads generates s rfl
  rw [compileFile, ran]
  rfl

end Cli

/-- How far a viewing is. -/
inductive ViewingStage where
  /-- The file is still to be read. -/
  | opening
  /-- The file was compiled, and its time of change is still to be recorded. -/
  | compiled (source : String)
  /-- Between two polls. -/
  | resting (p : Poller)
  /-- In a poll that recorded a new time and has still to read the file. -/
  | noticing (p : Poller)
  /-- A failure ended the command. -/
  | ended

/-- A show command under way. -/
structure Viewing where
  files : Files
  /-- The times of change that the file has had. -/
  past : List Int
  stage : ViewingStage := .opening
  /-- The sources given to the window, the latest first. -/
  handed : List String := []

namespace Viewing

variable {x : Exhibit} {v w : Viewing}

/-- A viewing before the first step of its command. -/
def start (x : Exhibit) (fs : Files) : Viewing :=
  { files := fs, past := (fs.modified? x.file).toList }

/-- The next step of the command. -/
def advance (x : Exhibit) (v : Viewing) : Viewing :=
  match v.stage with
  | .opening =>
    match ((Cli.compileFile x).run { files := v.files, device := {} }).1 with
    | .ok source => { v with stage := .compiled source }
    | .error _ => { v with stage := .ended }
  | .compiled source =>
    { v with
      stage := .resting (.start v.files x.file x.target (x.sink.map .int))
      handed := [source] }
  | .resting p =>
    match p.notice v.files with
    | none => v
    | some q => { v with stage := .noticing q }
  | .noticing p =>
    match (p.compile v.files).outcome with
    | .ok none => { v with stage := .resting p }
    | .ok (some source) => { v with stage := .resting p, handed := source :: v.handed }
    | .error _ => { v with stage := .ended }
  | .ended => v

/-- Somebody writes the file, and gives it a time that it never had. -/
def Written (x : Exhibit) (v w : Viewing) : Prop :=
  ∃ bytes time files, v.files.write x.file bytes time = .ok files ∧ time ∉ v.past ∧
    w = { v with files, past := time :: v.past }

/-- The viewings that steps of the command and writes lead to, in any order. -/
inductive Reached (x : Exhibit) (fs : Files) : Viewing → Prop
  | start : Reached x fs (.start x fs)
  | advance {v : Viewing} (reached : Reached x fs v) : Reached x fs (v.advance x)
  | written {v w : Viewing} (reached : Reached x fs v) (writes : Written x v w) : Reached x fs w

/-- Whether a viewing is between two polls. -/
def IsResting (v : Viewing) : Prop := ∃ p, v.stage = .resting p

/-- The recorded time is one that the file has had, and so is its time at present. -/
structure Tracked (x : Exhibit) (v : Viewing) : Prop where
  present : ∀ time, v.files.modified? x.file = some time → time ∈ v.past
  recorded : ∀ p, v.stage = .resting p ∨ v.stage = .noticing p →
    ∃ seen, p = x.poller seen ∧ ∀ time, seen = some time → time ∈ v.past

theorem tracked_start (x : Exhibit) (fs : Files) : Tracked x (start x fs) where
  present time modified := by
    rw [start, Option.mem_toList]
    exact modified
  recorded p := by simp [start]

theorem Tracked.step (tracked : Tracked x v) : Tracked x (v.advance x) := by
  unfold Viewing.advance
  split
  · split
    · exact ⟨tracked.present, by simp⟩
    · exact ⟨tracked.present, by simp⟩
  · refine ⟨tracked.present, ?_⟩
    rintro p (same | same)
    · cases same
      exact ⟨v.files.modified? x.file, rfl, tracked.present⟩
    · cases same
  · rename_i p stage
    split
    · exact tracked
    · rename_i q noticed
      refine ⟨tracked.present, ?_⟩
      rintro p' (same | same)
      · cases same
      · cases same
        obtain ⟨seen, rfl, -⟩ := tracked.recorded p (.inl stage)
        obtain ⟨time, modified, -, rfl⟩ := Poller.notice_eq_some_iff.mp noticed
        refine ⟨some time, rfl, fun time' recorded => ?_⟩
        cases recorded
        exact tracked.present time modified
  · rename_i p stage
    have keeps : ∀ handed, Tracked x { v with stage := .resting p, handed } := by
      intro handed
      refine ⟨tracked.present, ?_⟩
      rintro p' (same | same)
      · cases same
        exact tracked.recorded p (.inr stage)
      · cases same
    split
    · exact keeps v.handed
    · exact keeps _
    · exact ⟨tracked.present, by simp⟩
  · exact tracked

theorem Tracked.written (tracked : Tracked x v) (writes : Written x v w) : Tracked x w := by
  obtain ⟨bytes, time, files, wrote, -, rfl⟩ := writes
  constructor
  · intro time' modified
    rw [Files.modified?_write wrote] at modified
    cases modified
    exact List.mem_cons_self
  · intro p stage
    obtain ⟨seen, same, inside⟩ := tracked.recorded p stage
    exact ⟨seen, same, fun time' recorded => List.mem_cons_of_mem _ (inside time' recorded)⟩

theorem Reached.tracked {fs : Files} (reached : Reached x fs v) : Tracked x v := by
  induction reached with
  | start => exact tracked_start x fs
  | advance _ ih => exact ih.step
  | written _ writes ih => exact ih.written writes

/-- The viewings from which on nobody writes the file: one whose file was just written, or one that
has not begun and whose file is not written at all. -/
inductive Final (x : Exhibit) (fs : Files) : Viewing → Prop
  | unwritten : Final x fs (start x fs)
  | written {v w : Viewing} (reached : Reached x fs v) (writes : Written x v w) : Final x fs w

theorem files_advance (x : Exhibit) (v : Viewing) : (v.advance x).files = v.files := by
  unfold Viewing.advance
  split
  · split <;> rfl
  · rfl
  · split <;> rfl
  · split <;> rfl
  · rfl

section Quiet

/- From here on nobody writes the file. Its time is `time`, and it compiles to `source`. -/

variable {source latest : String} {time : Int} {seen : Option Int}

theorem advance_opening (compiles : x.source? v.files = some source) (stage : v.stage = .opening) :
    v.advance x = { v with stage := .compiled source } := by
  have ran := @Cli.run_compileFile x { files := v.files, device := {} } source compiles
  unfold Viewing.advance
  rw [stage]
  dsimp only
  rw [ran]

theorem advance_compiled {opened : String} (modified : v.files.modified? x.file = some time)
    (stage : v.stage = .compiled opened) : v.advance x =
      { v with stage := .resting (x.poller (some time)), handed := [opened] } := by
  unfold Viewing.advance
  rw [stage]
  dsimp only
  rw [Poller.start, modified]
  rfl

theorem advance_behind (modified : v.files.modified? x.file = some time)
    (stage : v.stage = .resting (x.poller seen)) (other : seen ≠ some time) :
    v.advance x = { v with stage := .noticing (x.poller (some time)) } := by
  have noticed : (x.poller seen).notice v.files = some (x.poller (some time)) :=
    Poller.notice_eq_some_iff.mpr ⟨time, modified, other, rfl⟩
  unfold Viewing.advance
  rw [stage]
  dsimp only
  rw [noticed]

theorem advance_noticing (compiles : x.source? v.files = some source)
    (stage : v.stage = .noticing (x.poller seen)) : v.advance x =
      { v with stage := .resting (x.poller seen), handed := source :: v.handed } := by
  unfold Viewing.advance
  rw [stage]
  dsimp only
  rw [x.outcome_compile compiles]

theorem advance_current (modified : v.files.modified? x.file = some time)
    (stage : v.stage = .resting (x.poller (some time))) : v.advance x = v := by
  have unnoticed : (x.poller (some time)).notice v.files = none := by
    have modified' : v.files.modified? (x.poller (some time)).file = some time := modified
    rw [Poller.notice, modified']
    exact if_pos rfl
  unfold Viewing.advance
  rw [stage]
  dsimp only
  rw [unnoticed]

/-- A poll of a file that changed gives its source to the window. -/
theorem advance_advance_behind (compiles : x.source? v.files = some source)
    (modified : v.files.modified? x.file = some time) (stage : v.stage = .resting (x.poller seen))
    (other : seen ≠ some time) : (v.advance x).advance x =
      { v with stage := .resting (x.poller (some time)), handed := source :: v.handed } := by
  rw [advance_behind modified stage other]
  exact @advance_noticing x { v with stage := .noticing (x.poller (some time)) } source (some time)
    compiles rfl

/-- What the window shows in the end, as the stage tells. -/
inductive Tends (x : Exhibit) (source : String) (time : Int) : String → Viewing → Prop
  | opening {v : Viewing} (stage : v.stage = .opening) : Tends x source time source v
  | compiled {v : Viewing} {opened : String} (stage : v.stage = .compiled opened) :
      Tends x source time opened v
  | behind {v : Viewing} {seen : Option Int} (stage : v.stage = .resting (x.poller seen))
      (other : seen ≠ some time) : Tends x source time source v
  | noticing {v : Viewing} {seen : Option Int} (stage : v.stage = .noticing (x.poller seen)) :
      Tends x source time source v
  | current {v : Viewing} {latest : String} (stage : v.stage = .resting (x.poller (some time)))
      (shown : v.handed.head? = some latest) : Tends x source time latest v

theorem Tends.step (compiles : x.source? v.files = some source)
    (modified : v.files.modified? x.file = some time) (tends : Tends x source time latest v) :
    Tends x source time latest (v.advance x) := by
  cases tends with
  | opening stage =>
    rw [advance_opening compiles stage]
    exact .compiled rfl
  | compiled stage =>
    rw [advance_compiled modified stage]
    exact .current rfl rfl
  | behind stage other =>
    rw [advance_behind modified stage other]
    exact .noticing rfl
  | @noticing _ seen stage =>
    rw [advance_noticing compiles stage]
    by_cases same : seen = some time
    · subst same
      exact .current rfl rfl
    · exact .behind rfl same
  | current stage shown =>
    rw [advance_current modified stage]
    exact .current stage shown

theorem Tends.iterate (compiles : x.source? v.files = some source)
    (modified : v.files.modified? x.file = some time) (tends : Tends x source time latest v)
    (n : Nat) :
    ((advance x)^[n] v).files = v.files ∧ Tends x source time latest ((advance x)^[n] v) := by
  induction n with
  | zero => exact ⟨rfl, tends⟩
  | succ n ih =>
    obtain ⟨files, tends⟩ := ih
    rw [Function.iterate_succ_apply', files_advance, files]
    refine ⟨rfl, tends.step ?_ ?_⟩
    · rw [files, compiles]
    · rw [files, modified]

/-- A poll that started with the file as it is has brought the window up to date when it is over. -/
theorem Tends.poll (compiles : x.source? v.files = some source)
    (modified : v.files.modified? x.file = some time) (tends : Tends x source time latest v)
    (begun : v.IsResting) {n : Nat} (finished : ((advance x)^[n + 1] v).IsResting) :
    ((advance x)^[n + 1] v).stage = .resting (x.poller (some time)) ∧
      ((advance x)^[n + 1] v).handed.head? = some latest := by
  obtain ⟨p, rests⟩ := begun
  cases tends with
  | opening stage | compiled stage | noticing stage =>
    rw [stage] at rests
    cases rests
  | current stage shown =>
    rw [Function.iterate_fixed (advance_current modified stage)]
    exact ⟨stage, shown⟩
  | behind stage other =>
    cases n with
    | zero =>
      rw [Function.iterate_one, advance_behind modified stage other] at finished
      obtain ⟨q, stage⟩ := finished
      cases stage
    | succ n =>
      rw [Function.iterate_succ_apply, Function.iterate_succ_apply,
        advance_advance_behind compiles modified stage other]
      let shown : Viewing :=
        { v with stage := .resting (x.poller (some time)), handed := source :: v.handed }
      have fixed : shown.advance x = shown := advance_current modified rfl
      rw [Function.iterate_fixed fixed]
      exact ⟨rfl, rfl⟩

/-- The command comes to rest. -/
theorem Tends.exists_rest (compiles : x.source? v.files = some source)
    (modified : v.files.modified? x.file = some time) (tends : Tends x source time latest v) :
    ∃ i, ((advance x)^[i] v).IsResting := by
  cases tends with
  | opening stage =>
    refine ⟨2, ?_⟩
    rw [Function.iterate_succ_apply, Function.iterate_one, advance_opening compiles stage]
    rw [@advance_compiled x { v with stage := .compiled source } time source modified rfl]
    exact ⟨_, rfl⟩
  | compiled stage =>
    refine ⟨1, ?_⟩
    rw [Function.iterate_one, advance_compiled modified stage]
    exact ⟨_, rfl⟩
  | noticing stage =>
    refine ⟨1, ?_⟩
    rw [Function.iterate_one, advance_noticing compiles stage]
    exact ⟨_, rfl⟩
  | behind stage other => exact ⟨0, _, stage⟩
  | current stage shown => exact ⟨0, _, stage⟩

/-- A poll that starts comes to its end. -/
theorem Tends.exists_over (compiles : x.source? v.files = some source)
    (modified : v.files.modified? x.file = some time) (tends : Tends x source time latest v)
    (begun : v.IsResting) : ∃ n, ((advance x)^[n + 1] v).IsResting := by
  obtain ⟨p, rests⟩ := begun
  cases tends with
  | opening stage | compiled stage | noticing stage =>
    rw [stage] at rests
    cases rests
  | current stage shown =>
    refine ⟨0, ?_⟩
    rw [Function.iterate_one, advance_current modified stage]
    exact ⟨_, stage⟩
  | behind stage other =>
    refine ⟨1, ?_⟩
    rw [Function.iterate_succ_apply, Function.iterate_one,
      advance_advance_behind compiles modified stage other]
    exact ⟨_, rfl⟩

end Quiet

/-- The stage in which the last write meets the command tells what the window will show. -/
theorem Final.exists_tends {fs : Files} {source : String} (final : Final x fs v)
    (compiles : x.source? v.files = some source) (alive : v.stage ≠ .ended) :
    ∃ time latest, v.files.modified? x.file = some time ∧ Tends x source time latest v ∧
      (latest = source ↔ ∀ opened, v.stage = .compiled opened → opened = source) := by
  obtain ⟨⟨time, modified⟩, -⟩ := Cli.readable_of_source? compiles
  refine ⟨time, ?_⟩
  cases final with
  | unwritten => exact ⟨source, modified, .opening rfl, by simp [start]⟩
  | written reached writes =>
    have tracked := reached.tracked
    obtain ⟨bytes, time', files, wrote, fresh, rfl⟩ := writes
    obtain rfl : time' = time := by simpa [Files.modified?_write wrote] using modified
    rename_i v₀
    cases met : v₀.stage with
    | opening => exact ⟨source, modified, .opening rfl, by simp⟩
    | compiled opened => exact ⟨opened, modified, .compiled rfl, by simp⟩
    | resting p =>
      obtain ⟨seen, rfl, had⟩ := tracked.recorded p (.inl met)
      -- What was recorded is a time that the file has had, and the last write gave it a new one.
      have other : seen ≠ some time' := fun same => fresh (had time' same)
      exact ⟨source, modified, .behind rfl other, by simp⟩
    | noticing p =>
      obtain ⟨seen, rfl, -⟩ := tracked.recorded p (.inr met)
      exact ⟨source, modified, .noticing rfl, by simp⟩
    | ended => exact absurd met alive

/-- A command that has ended polls no more. -/
theorem not_resting_of_ended (ended : v.stage = .ended) (n : Nat) :
    ¬ ((advance x)^[n] v).IsResting := by
  have fixed : v.advance x = v := by
    unfold Viewing.advance
    rw [ended]
  rw [Function.iterate_fixed fixed]
  rintro ⟨p, rests⟩
  rw [ended] at rests
  cases rests

/-- After the last write of its file a viewing goes on to rest and to poll, unless a failure had
ended it. As soon as a poll that began after that write is over, the source that the window got last
is the one that the file compiles to, and stays so. The exception is a last write that came after
the file was read and before its time was recorded: then it is the source that was read, whatever
the file holds. -/
theorem handed_final_source_iff {fs : Files} {source : String} (final : Final x fs v)
    (compiles : x.source? v.files = some source) :
    (v.stage ≠ .ended →
        ∃ i j, i < j ∧ ((advance x)^[i] v).IsResting ∧ ((advance x)^[j] v).IsResting) ∧
      ∀ i j k, i < j → j ≤ k → ((advance x)^[i] v).IsResting → ((advance x)^[j] v).IsResting →
        (((advance x)^[k] v).handed.head? = some source ↔
          ∀ opened, v.stage = .compiled opened → opened = source) := by
  by_cases alive : v.stage = .ended
  · refine ⟨fun other => absurd alive other, fun i j k _ _ rests => ?_⟩
    exact absurd rests (not_resting_of_ended alive i)
  · obtain ⟨time, latest, modified, tends, same⟩ := final.exists_tends compiles alive
    constructor
    · intro _
      obtain ⟨i, rests⟩ := tends.exists_rest compiles modified
      obtain ⟨files, tends'⟩ := tends.iterate compiles modified i
      obtain ⟨n, finished⟩ := tends'.exists_over (files ▸ compiles) (files ▸ modified) rests
      refine ⟨i, n + 1 + i, by omega, rests, ?_⟩
      rw [Function.iterate_add_apply]
      exact finished
    · intro i j k before after rests finished
      obtain ⟨files, tends'⟩ := tends.iterate compiles modified i
      obtain ⟨n, rfl⟩ : ∃ n, j = n + 1 + i := ⟨j - i - 1, by omega⟩
      obtain ⟨m, rfl⟩ : ∃ m, k = m + (n + 1 + i) := ⟨k - (n + 1 + i), by omega⟩
      rw [Function.iterate_add_apply] at finished
      obtain ⟨stage', shown⟩ := tends'.poll (files ▸ compiles) (files ▸ modified) rests finished
      have files' : ((advance x)^[n + 1] ((advance x)^[i] v)).files = v.files := by
        rw [← Function.iterate_add_apply]
        exact (tends.iterate compiles modified (n + 1 + i)).1
      rw [Function.iterate_add_apply _ m, Function.iterate_add_apply _ (n + 1),
        Function.iterate_fixed (advance_current (files' ▸ modified) stage'), shown, ← same,
        Option.some.injEq]

/-- A canvas that is given nothing. -/
def blackBytes : List UInt8 := Poller.documentBytes "\"1\":\x7b\"id\":1,\"name\":\"Canvas\"\x7d"

def exhibit : Exhibit := ⟨⟨"", ["g"]⟩, .opengl33, none⟩

theorem source?_blackBytes : exhibit.source? (Poller.lone blackBytes 1) =
    some (Poller.oneLine "    fragColor = vec4(0.0, 0.0, 0.0, 1.0);") :=
  @Cli.source?_of_plainSource? .opengl33 1 _ _ _ (by decide +kernel)

/-- The file is written after it was read and before its time is recorded, and no poll gives the
window what was written. -/
theorem handed_final_source_iff_overlooked :
    ∃ v source, Final exhibit (Poller.lone blackBytes 1) v ∧ exhibit.source? v.files = some source ∧
      ((advance exhibit)^[1] v).IsResting ∧ ((advance exhibit)^[2] v).IsResting ∧
      ∀ k ≥ 2, ((advance exhibit)^[k] v).handed.head? ≠ some source := by
  let opening : Viewing := start exhibit (Poller.lone blackBytes 1)
  have compiled := @advance_opening exhibit opening _ source?_blackBytes rfl
  have reached : Reached exhibit (Poller.lone blackBytes 1) (opening.advance exhibit) :=
    .advance .start
  rw [compiled] at reached
  let v : Viewing :=
    { files := Poller.lone Poller.coolBytes 3
      past := [3, 1]
      stage := .compiled (Poller.oneLine "    fragColor = vec4(0.0, 0.0, 0.0, 1.0);") }
  have final : Final exhibit (Poller.lone blackBytes 1) v :=
    .written reached ⟨Poller.coolBytes, 3, _, rfl, by decide, rfl⟩
  have recorded := @advance_compiled exhibit v 3 _ rfl rfl
  have rests : ((advance exhibit)^[1] v).IsResting := by
    rw [Function.iterate_one, recorded]
    exact ⟨_, rfl⟩
  have polled : ((advance exhibit)^[2] v).IsResting := by
    have fixed : (v.advance exhibit).advance exhibit = v.advance exhibit :=
      advance_current (by rw [recorded]; rfl) (by rw [recorded])
    rw [Function.iterate_succ_apply, Function.iterate_one, fixed]
    exact rests
  refine ⟨v, _, final, Poller.source?_coolBytes, rests, polled, fun k later shown => ?_⟩
  have same := ((handed_final_source_iff final Poller.source?_coolBytes).2 1 2 k (by omega) later
    rests polled).mp shown _ rfl
  exact absurd same (by decide +kernel)

end Viewing

end ShaderFlow
