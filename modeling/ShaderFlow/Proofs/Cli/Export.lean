import ShaderFlow.Proofs.Cli.Step
import ShaderFlow.Proofs.Evaluation.Spelling

set_option autoImplicit false

/-
An export ends well with the source of the graph, below a header if one is asked for, in its output
and nowhere else; or it reports a problem, with no file changed and nothing printed. There is one
more end: a header with a file name that is no text cannot be written. Then the output is empty.
-/

namespace ShaderFlow

open ShaderFlow.Graph Reading Work

namespace Header

/-- A header up to the name of the graph's file. -/
def lead (time : String) : String :=
  "// Generated by shadergraph v0.1.0" ++ "\n" ++ s!"// Generation time: {time}" ++ "\n" ++
    "// Source graph: "

/-- A header behind the name of the graph's file. -/
def trail (target : Target) : String := "\n" ++ s!"// Target: {target.name}" ++ "\n"

theorem join_around (a b c n d : String) :
    String.join ([a, b, c ++ n, d].map (· ++ "\n")) =
      (a ++ "\n" ++ b ++ "\n" ++ c) ++ n ++ ("\n" ++ d ++ "\n") := by
  simp only [List.map_cons, List.map_nil, String.join_cons, String.join_nil, String.append_assoc,
    String.append_empty]

theorem join_lines (time : String) (file : Path) (target : Target) :
    String.join ((lines time file target).map (· ++ "\n")) =
      lead time ++ file.name ++ trail target :=
  join_around "// Generated by shadergraph v0.1.0" s!"// Generation time: {time}"
    "// Source graph: " file.name s!"// Target: {target.name}"

/-- A header is plain apart from the time and the file's name. -/
theorem mem_lead {time : String} {c : Char} (member : c ∈ (lead time).toList) :
    isPlain c = true ∨ c = '\n' ∨ c ∈ time.toList := by
  have texts : ∀ s ∈ ["// Generated by shadergraph v0.1.0", "// Generation time: ",
      "// Source graph: "], isPlainText s = true := by decide
  have plain : ∀ s ∈ ["// Generated by shadergraph v0.1.0", "// Generation time: ",
      "// Source graph: "], c ∈ s.toList → isPlain c = true :=
    fun s known inside => List.all_eq_true.mp (texts s known) c inside
  unfold lead at member
  simp only [String.toList_append, List.mem_append] at member
  rcases member with (((first | ends) | second | time) | ends) | third
  · exact .inl (plain _ (by simp) first)
  · exact .inr (.inl (List.mem_singleton.mp ends))
  · exact .inl (plain "// Generation time: " (by simp) second)
  · exact .inr (.inr time)
  · exact .inr (.inl (List.mem_singleton.mp ends))
  · exact .inl (plain _ (by simp) third)

theorem mem_trail {target : Target} {c : Char} (member : c ∈ (trail target).toList) :
    isPlain c = true ∨ c = '\n' := by
  have all : ∀ target, (trail target).toList.all (fun c => isPlain c || c == '\n') = true := by
    intro target
    cases target <;> decide
  simpa using List.all_eq_true.mp (all target) c member

/-- Around the name of the file a source with a header is plain, apart from the time. -/
theorem exists_add_eq (time : String) (file : Path) (target : Target) {code : String}
    (plain : ∀ c ∈ code.toList, isPlain c = true ∨ c = '\n') :
    ∃ front back, (add time file target code).toList = front ++ (file.name.toList ++ back) ∧
      ∀ c ∈ front ++ back, isPlain c = true ∨ c = '\n' ∨ c ∈ time.toList := by
  -- The header stands within the source, of which it may take a line end.
  obtain ⟨before, after, around, whole⟩ : ∃ before after,
      (∀ c ∈ before ++ after, c ∈ code.toList ∨ c = '\n') ∧ (add time file target code).toList =
        before ++ ((lead time).toList ++ (file.name.toList ++
          ((trail target).toList ++ after))) := by
    unfold add
    rw [join_lines]
    dsimp only
    split
    · refine ⟨(splitLine code.toList).1 ++ ['\n'], (splitLine code.toList).2, fun c member => ?_,
        by simp⟩
      simp only [splitLine, List.append_assoc, List.mem_append, List.mem_singleton] at member
      rcases member with early | rfl | late
      · exact .inl ((List.takeWhile_sublist _).subset early)
      · exact .inr rfl
      · exact .inl ((List.dropWhile_sublist _).subset ((List.drop_sublist _ _).subset late))
    · refine ⟨[], '\n' :: code.toList, fun c member => ?_, by simp⟩
      simpa [or_comm] using member
  have source : ∀ c ∈ before ++ after, isPlain c = true ∨ c = '\n' ∨ c ∈ time.toList := by
    intro c member
    rcases around c member with known | ends
    · exact (plain c known).imp_right .inl
    · exact .inr (.inl ends)
  refine ⟨before ++ (lead time).toList, (trail target).toList ++ after, by simp [whole], ?_⟩
  intro c member
  simp only [List.mem_append] at member source
  rcases member with (early | lead) | trail | late
  · exact source c (.inl early)
  · exact mem_lead lead
  · exact (mem_trail trail).imp_right .inl
  · exact source c (.inr late)

end Header

namespace Cli

theorem parse_export {name : String} {rest : List String} {file : Path} {output : Option Path}
    {target : Option String} {sink : Option Int} {header : Bool}
    (parsed : Command.parse name rest = .ok (.export file output target sink header)) :
    ∃ p : Parsed, p.int? "sink" = .ok sink := by
  unfold Command.parse at parsed
  obtain ⟨p, -, parsed⟩ := Outcome.bind_eq_ok_iff.mp parsed
  obtain ⟨paths, -, parsed⟩ := Outcome.bind_eq_ok_iff.mp parsed
  split at parsed
  · cases parsed
  · split at parsed
    · cases parsed
    · obtain ⟨n, read, parsed⟩ := Outcome.bind_eq_ok_iff.mp parsed
      cases parsed
      exact ⟨p, read⟩
  · cases parsed
  · repeat obtain ⟨_, -, parsed⟩ := Outcome.bind_eq_ok_iff.mp parsed
    cases parsed
  · repeat obtain ⟨_, -, parsed⟩ := Outcome.bind_eq_ok_iff.mp parsed
    cases parsed
  · repeat obtain ⟨_, -, parsed⟩ := Outcome.bind_eq_ok_iff.mp parsed
    cases parsed
  · cases parsed

theorem dropSequences_eq_self {cs : List Char} (plain : escape ∉ cs) :
    dropSequences [] cs = cs := by
  induction cs with
  | nil => rfl
  | cons c cs ih =>
    have other : (c == escape) = false := beq_eq_false_iff_ne.mpr fun same => plain (by simp [same])
    rw [dropSequences, other, ih fun member => plain (List.mem_cons_of_mem c member)]
    rfl

/-- Printing adds no characters. -/
theorem mem_of_mem_dropSequences {held cs : List Char} {c : Char}
    (member : c ∈ dropSequences held cs) : c ∈ held ∨ c ∈ cs := by
  fun_induction dropSequences held cs <;> grind

section Texts

variable {world : World} {file : Path} {output : Option Path} {target : Option String}
  {sink : Option Int} {header : Bool} {text : String}

/-- A source as it is given out. -/
def finished (world : World) (file : Path) (target : Target) (header : Bool) (source : String) :
    String :=
  (if header then Header.add world.time file target source else source) ++ "\n"

/-- The text of an export: the source of the graph that the file holds, for the target that the
option or the environment names, below a header if one is asked for. -/
inductive Exports (world : World) (file : Path) (target : Option String) (sink : Option Int)
    (header : Bool) : String → Prop
  | mk {choice : Option Target} {config : Config} {bytes : List UInt8} {members : Members}
      {g : Graph Int} {source : String} (chosen : targetOf target = .ok choice)
      (configured : Config.ofEnvironment world.settings { target := choice } = .ok config)
      (read : world.files.read file = .ok bytes)
      (value : Store.readValue bytes = .ok (.ok (.obj members)))
      (loaded : (Graph.ofDocument .builtin (.obj members)).outcome = .ok g)
      (evaluated : (g.evaluate config.target (sink.map .int) false).outcome = .ok source) :
      Exports world file target sink header (finished world file config.target header source)

/-- What arrives of a text: the standard output leaves control sequences out. -/
def given : Option Path → String → String
  | none, text => printable text
  | some _, text => text

/-- Whether the header of an export holds a character of the file's name or of the time. -/
def HeaderHolds (world : World) (file : Path) (header : Bool) (c : Char) : Prop :=
  header = true ∧ (c ∈ file.name.toList ∨ c ∈ world.time.toList)

theorem plain_source {document : Json} {g : Graph Int} {target : Target} {source : String}
    (loaded : (Graph.ofDocument .builtin document).outcome = .ok g)
    (evaluated : (g.evaluate target (sink.map .int) false).outcome = .ok source) :
    ∀ c ∈ source.toList, isPlain c = true ∨ c = '\n' := by
  have depicts := Document.depicts_of_ofDocument Document.checks_builtin loaded
  obtain ⟨_, _, writes⟩ := exists_writes depicts.sound depicts.registry_eq evaluated
  exact writes.plain

/-- Around the name of the file a text with a header is plain, apart from the time. -/
theorem Exports.exists_around (exports : Exports world file target sink true text) :
    ∃ front back, text.toList = front ++ (file.name.toList ++ back) ∧
      ∀ c ∈ front ++ back, isPlain c = true ∨ c = '\n' ∨ c ∈ world.time.toList := by
  obtain ⟨chosen, configured, read, value, loaded, evaluated⟩ := exports
  obtain ⟨front, back, whole, around⟩ :=
    Header.exists_add_eq world.time file _ (plain_source loaded evaluated)
  refine ⟨front, back ++ ['\n'], ?_, fun c member => ?_⟩
  · rw [finished, if_pos rfl, String.toList_append, whole]
    simp
  · rw [← List.append_assoc, List.mem_append] at member
    rcases member with inside | ends
    · exact around c inside
    · exact .inr (.inl (List.mem_singleton.mp ends))

/-- All but the header is plain text. -/
theorem Exports.plain_or_headerHolds (exports : Exports world file target sink header text) :
    ∀ c ∈ text.toList, isPlain c = true ∨ c = '\n' ∨ HeaderHolds world file header c := by
  intro c member
  cases header with
  | true =>
    obtain ⟨front, back, whole, around⟩ := exports.exists_around
    have outside : c ∈ front ∨ c ∈ back → isPlain c = true ∨ c = '\n' ∨
        HeaderHolds world file true c :=
      fun out => (around c (List.mem_append.mpr out)).imp_right
        (.imp_right fun time => ⟨rfl, .inr time⟩)
    rw [whole, List.mem_append, List.mem_append] at member
    rcases member with early | name | late
    · exact outside (.inl early)
    · exact .inr (.inr ⟨rfl, .inl name⟩)
    · exact outside (.inr late)
  | false =>
    obtain ⟨chosen, configured, read, value, loaded, evaluated⟩ := exports
    rw [finished, String.toList_append, List.mem_append] at member
    rcases member with inside | ends
    · exact (plain_source loaded evaluated c inside).imp_right .inl
    · exact .inr (.inl (List.mem_singleton.mp ends))

/-- What is neither plain nor ends a line stands in the header only. -/
theorem Exports.not_mem (exports : Exports world file target sink header text) {c : Char}
    (special : isPlain c = false ∧ c ≠ '\n') (absent : ¬ HeaderHolds world file header c) :
    c ∉ text.toList := by
  intro member
  rcases exports.plain_or_headerHolds c member with plain | ends | holds
  · rw [special.1] at plain
    cases plain
  · exact special.2 ends
  · exact absent holds

/-- Nothing is given out that the text does not hold. -/
theorem mem_of_mem_given {c : Char} (member : c ∈ (given output text).toList) :
    c ∈ text.toList := by
  cases output with
  | none =>
    rw [given, printable, String.toList_ofList] at member
    exact (mem_of_mem_dropSequences member).resolve_left (by simp)
  | some p => exact member

/-- Only a header can keep a text from having bytes. -/
theorem Exports.isOk_encode (exports : Exports world file target sink header text)
    (plain : ¬ HeaderHolds world file header Text.mark) :
    (Files.encode (given output text)).isOk = true := by
  have unmarked : Text.mark ∉ (given output text).toList := fun member =>
    exports.not_mem (by decide) plain (mem_of_mem_given member)
  obtain ⟨bytes, encoded⟩ := Text.exists_utf8Encode unmarked
  rw [Files.encode, encoded]
  rfl

/-- A header with the name of a file that begins with half of a surrogate pair has no bytes. -/
theorem Exports.encode_eq_error (exports : Exports world file target sink true text)
    (timely : Text.mark ∉ world.time.toList) {c : Char} {rest : List Char}
    (name : file.name.toList = Text.mark :: c :: rest) (half : c ≠ Text.mark) :
    Files.encode text = .error .unencodable := by
  obtain ⟨front, back, whole, around⟩ := exports.exists_around
  have unmarked : Text.mark ∉ front := by
    intro member
    rcases around _ (List.mem_append_left _ member) with plain | ends | time
    · exact absurd plain (by decide)
    · exact absurd ends (by decide)
    · exact timely time
  rw [name] at whole
  rw [Files.encode, Text.utf8Encode?_eq_none whole unmarked half]

/-- Only a header can lose something when it is printed. -/
theorem Exports.given_eq (exports : Exports world file target sink header text)
    (plain : ¬ HeaderHolds world file header escape) : given output text = text := by
  cases output with
  | none =>
    have whole := dropSequences_eq_self (exports.not_mem (by decide) plain)
    rw [given, printable, whole, String.ofList_toList]
  | some p => rfl

end Texts

section Runs

variable {world : World} {file : Path} {output : Option Path} {target : Option String}
  {sink : Option Int} {header : Bool} {text : String}

/-- The text of an export, if there is one. -/
def exported? (world : World) (file : Path) (target : Option String) (sink : Option Int)
    (header : Bool) : Option String :=
  (configuration world (targetOf target)).toOption.bind fun config =>
    (graph? world.files file).bind fun g =>
      (g.evaluate config.target (sink.map .int) false).outcome.toOption.bind fun source =>
        some (finished world file config.target header source)

theorem exported?_eq_some_iff :
    exported? world file target sink header = some text ↔
    Exports world file target sink header text := by
  simp only [exported?, Option.bind_eq_some_iff, Outcome.toOption_eq_some_iff, graph?,
    configuration, Outcome.bind_eq_ok_iff, Store.document?_eq_some_iff]
  constructor
  · rintro ⟨config, ⟨choice, chosen, configured⟩, g,
      ⟨_, ⟨bytes, members, read, value, rfl⟩, loaded⟩, source, evaluated, same⟩
    cases same
    exact .mk chosen configured read value loaded evaluated
  · rintro ⟨chosen, configured, read, value, loaded, evaluated⟩
    exact ⟨_, ⟨_, chosen, configured⟩, _, ⟨_, ⟨_, _, read, value, rfl⟩, loaded⟩, _, evaluated, rfl⟩

/-- Makes the text of an export. -/
def makeText (world : World) (file : Path) (target : Option String) (sink : Option Int)
    (header : Bool) : CommandM String := do
  let config ← configure world (targetOf target) {}
  let source ← generate (← readGraph file) config.target sink
  return finished world file config.target header source

/-- Prints a text or writes it to a file. -/
def giveOut (output : Option Path) (text : String) : CommandM Unit := do
  match output with
  | none => printText text
  | some p =>
    let (fs, written) := (← get).files.writeText p text
    modify fun s => { s with files := fs }
    need written
    tell (.shaderExported p.text)

theorem runExport_eq : runExport world file output target sink header =
    makeText world file target sink header >>= giveOut output := by
  simp only [runExport, makeText, bind_assoc, pure_bind]
  rfl

theorem settles_makeText (findable : (world.files.contains file).isOk = true)
    (readable : ∀ bytes, world.files.read file = .ok bytes → (Store.readValue bytes).isOk = true)
    (fits : ∀ id ∈ sink, Writable id) :
    Settles world.files (makeText world file target sink header)
      (exported? world file target sink header) := by
  refine (settles_configure _ world _).bind fun config _ => ?_
  refine (settles_readGraph findable readable).bind fun g found => ?_
  obtain ⟨document, -, loaded⟩ := Option.bind_eq_some_iff.mp found
  have depicts := Document.depicts_of_ofDocument Document.checks_builtin
    (Outcome.toOption_eq_some_iff.mp loaded)
  obtain ⟨ids, answers⟩ := exists_answers depicts.sound depicts.registry_eq depicts.writable fits
    config.target
  refine (settles_generate fun e failed => ?_).bind fun source _ => settles_pure _ _
  rw [failed] at answers
  exact answers.isEvaluation

/-- What an export leaves behind: a text on the standard output, or bytes in its file. -/
def Leaves (fs : Files) (s : State) : Option Path → String → List UInt8 → Prop
  | none, text, _ => s.files = fs ∧ s.printed = text
  | some p, _, bytes => s.printed = "" ∧ fs.Rewritten p bytes s.files

theorem giveOut_cases {s : State} (blank : s.printed = "")
    (writable : ∀ p ∈ output, (s.files.write p [] 0).isOk = true) (text : String) :
    (∃ bytes s', Files.encode (given output text) = .ok bytes ∧
        (giveOut output text).run s = (.ok (), s') ∧
        Leaves s.files s' output (given output text) bytes) ∨
      ∃ s', Files.encode (given output text) = .error .unencodable ∧
        (giveOut output text).run s = (.error (.failure .unencodable), s') ∧
        Leaves s.files s' output "" [] := by
  cases output with
  | none =>
    cases encoded : Files.encode (given none text) with
    | ok bytes =>
      have ran : (giveOut none text).run s =
          (.ok (), { s with printed := s.printed ++ given none text }) := by
        have needed : (need (Files.encode (given none text))).run s = (.ok bytes, s) := by
          rw [encoded]
          rfl
        exact run_bind_ok needed
      refine .inl ⟨bytes, _, rfl, ran, rfl, ?_⟩
      rw [blank, String.empty_append]
    | error e =>
      obtain rfl := Files.encode_eq_error encoded
      have needed : (need (Files.encode (given none text))).run s =
          (.error (.failure .unencodable), s) := by
        rw [encoded]
        rfl
      exact .inr ⟨s, rfl, run_bind_error needed, rfl, blank⟩
  | some p =>
    have start : (get : CommandM State).run s = (.ok s, s) := rfl
    rcases Files.writeText_cases (writable p rfl) text with
      ⟨bytes, fs', encoded, wrote, rewritten⟩ | ⟨fs', encoded, wrote, rewritten⟩
    · obtain ⟨s', same, printed, told⟩ :=
        settles_report fs' [.shaderExported p.text] { s with files := fs' } rfl
      refine .inl ⟨bytes, s', encoded, ?_, printed.trans blank, same ▸ rewritten⟩
      rw [giveOut, run_bind_ok start, wrote]
      exact told
    · refine .inr ⟨{ s with files := fs' }, encoded, ?_, blank, rewritten⟩
      rw [giveOut, run_bind_ok start, wrote]
      rfl

/-- Whoever exports something has a valid configuration. -/
theorem Exports.isOk_configuration (exports : Exports world file target sink header text) :
    (configuration world (.ok none)).isOk = true := by
  obtain ⟨chosen, configured, -, -, -, -⟩ := exports
  have valid : (Config.ofEnvironment world.settings {}).isOk = true := by
    rw [← Config.isOk_ofEnvironment, configured]
    rfl
  exact valid

/-- The text of an export is made, or the command ends. -/
theorem settles_text (findable : (world.files.contains file).isOk = true)
    (readable : ∀ bytes, world.files.read file = .ok bytes → (Store.readValue bytes).isOk = true)
    (fits : ∀ id ∈ sink, Writable id) (verbose : Bool) :
    Settles world.files
    (chooseLevel world verbose >>= fun _ => makeText world file target sink header)
      (exported? world file target sink header) := by
  have both := (settles_chooseLevel world.files world verbose).bind fun _ _ =>
    @settles_makeText world file target sink header findable readable fits
  cases exported : exported? world file target sink header with
  | none => simpa only [exported, Option.bind_fun_none] using both
  | some text =>
    have valid := (exported?_eq_some_iff.mp exported).isOk_configuration
    cases configured : configuration world (.ok none) with
    | error e =>
      rw [configured] at valid
      cases valid
    | ok config =>
      rw [exported, configured] at both
      cases verbose <;> exact both

/-- An export of a file that can be read, to an output that can be written, ends in one of three
ways. Either its text has bytes, and they are all that is given out. Or it has none, and the command
fails with its output left empty: then the header holds a name that is no text. Or there is nothing
to export, and the command says so and leaves everything as it was. -/
theorem run_export_delivers_or_refuses {args : List String}
    (reads : readLine args = .ok (.export file output target sink header))
    (findable : (world.files.contains file).isOk = true)
    (readable : ∀ bytes, world.files.read file = .ok bytes → (Store.readValue bytes).isOk = true)
    (writable : ∀ p ∈ output, (world.files.write p [] 0).isOk = true) :
    ((∃ text bytes, Exports world file target sink header text ∧
          Files.encode (given output text) = .ok bytes ∧ (run world args).code = 0 ∧
          (run world args).failure = none ∧
          Leaves world.files (run world args).state output (given output text) bytes) ∨
        (∃ text, Exports world file target sink header text ∧
          Files.encode (given output text) = .error .unencodable ∧ (run world args).code = 1 ∧
          (run world args).failure = some .unencodable ∧
          Leaves world.files (run world args).state output "" []) ∨
        (∀ text, ¬ Exports world file target sink header text) ∧ (run world args).code = 1 ∧
          (run world args).failure = none ∧ (run world args).state.files = world.files ∧
          (run world args).state.printed = "") ∧
      ∀ text, Exports world file target sink header text →
        (¬ HeaderHolds world file header Text.mark →
          (Files.encode (given output text)).isOk = true) ∧
        (¬ HeaderHolds world file header escape → given output text = text) := by
  refine ⟨?_, fun text exports => ⟨exports.isOk_encode, exports.given_eq⟩⟩
  obtain ⟨⟨verbose, name, rest⟩, split, parses⟩ := Outcome.bind_eq_ok_iff.mp reads
  obtain ⟨p, option⟩ := parse_export parses
  have fits : ∀ id ∈ sink, Writable id := by
    intro id member
    obtain ⟨s, read⟩ := int?_cases option id member
    exact writable_of_readInteger? read
  have line : runLine world args =
      (chooseLevel world verbose >>= fun _ => makeText world file target sink header) >>=
        giveOut output := by
    rw [runLine_eq split parses, runCommand, runExport_eq, bind_assoc]
  obtain ⟨s, same, blank, ran⟩ :=
    @settles_text world file target sink header findable readable fits verbose world.start rfl
  cases exported : exported? world file target sink header with
  | none =>
    rw [exported] at ran
    have ended : (runLine world args).run world.start = (.error (.exit 1), s) := by
      rw [line]
      exact run_bind_error ran
    rw [run_of_exit ended]
    refine .inr (.inr ⟨fun text exports => ?_, rfl, rfl, same, blank⟩)
    rw [exported?_eq_some_iff.mpr exports] at exported
    cases exported
  | some text =>
    rw [exported] at ran
    have exports := exported?_eq_some_iff.mp exported
    have goes : (runLine world args).run world.start = (giveOut output text).run s := by
      rw [line]
      exact run_bind_ok ran
    rw [← same] at writable ⊢
    rcases giveOut_cases blank writable text with
      ⟨bytes, s', encoded, gave, leaves⟩ | ⟨s', failed, gave, leaves⟩
    · rw [run_of_ok (goes.trans gave)]
      exact .inl ⟨text, bytes, exports, encoded, rfl, rfl, leaves⟩
    · rw [run_of_failure (goes.trans gave)]
      exact .inr (.inl ⟨text, exports, failed, rfl, rfl, leaves⟩)

/-- A text that is one part is a path by itself. -/
theorem pathOf?_of_single {s : String} (single : s.splitOn "/" = [s])
    (named : (s != "" && s != ".") = true) (relative : Path.rootOf s.toList = "")
    (fits : Files.refusal? ⟨"", [s]⟩ = none) : Parsed.pathOf? s = some ⟨"", [s]⟩ := by
  have path : Path.ofText s = ⟨"", [s]⟩ := by
    rw [Path.ofText, single, relative, List.filter_cons, named, List.filter_nil, if_pos rfl]
  unfold Parsed.pathOf?
  rw [path]
  dsimp only
  rw [fits]

/-- The name of a file whose one byte is no character. -/
def byteName : String := Text.ofSymbols [.half 0xdc80]

theorem splitOn_o : "o".splitOn "/" = ["o"] := by
  rw [String.splitOn, if_neg (by decide)]
  unfold String.splitOnAux
  rw [if_neg (by decide), if_neg (by decide)]
  unfold String.splitOnAux
  rw [if_pos (by decide)]
  decide

theorem splitOn_byteName : byteName.splitOn "/" = [byteName] := by
  rw [String.splitOn, if_neg (by decide)]
  unfold String.splitOnAux
  rw [if_neg (by decide), if_neg (by decide)]
  unfold String.splitOnAux
  rw [if_neg (by decide), if_neg (by decide)]
  unfold String.splitOnAux
  rw [if_pos (by decide)]
  decide

theorem readLine_byteName : readLine ["export", byteName, "o", "--header"] =
    .ok (.export ⟨"", [byteName]⟩ (some ⟨"", ["o"]⟩) none none true) := by
  have split : splitCommand ["export", byteName, "o", "--header"] =
      .ok (false, "export", [byteName, "o", "--header"]) := by decide +kernel
  have parses : ∃ p, parse (switchesOf "export") true [byteName, "o", "--header"] = .ok p ∧
      p.given = [("header", "")] ∧ p.others = [byteName, "o"] := by
    have options : (parse (switchesOf "export") true [byteName, "o", "--header"]).toOption.map
        (fun p => (p.given, p.others)) = some ([("header", "")], [byteName, "o"]) := by
      decide +kernel
    obtain ⟨p, parses, same⟩ := Option.map_eq_some_iff.mp options
    cases outcome : parse (switchesOf "export") true [byteName, "o", "--header"] with
    | error r =>
      rw [outcome] at parses
      cases parses
    | ok q =>
      rw [outcome] at parses
      cases parses
      exact ⟨p, rfl, (Prod.mk.inj same).1, (Prod.mk.inj same).2⟩
  obtain ⟨⟨options, others⟩, parses, rfl, rfl⟩ := parses
  have paths : Parsed.paths ⟨[("header", "")], [byteName, "o"]⟩ =
      .ok [⟨"", [byteName]⟩, ⟨"", ["o"]⟩] := by
    rw [Parsed.paths, List.mapM_cons, List.mapM_cons, List.mapM_nil,
      pathOf?_of_single splitOn_byteName (by decide) (by decide) (by decide),
      pathOf?_of_single splitOn_o (by decide) (by decide) (by decide)]
    rfl
  rw [readLine, split]
  show Command.parse "export" [byteName, "o", "--header"] = _
  rw [Command.parse, parses]
  show (Parsed.paths ⟨[("header", "")], [byteName, "o"]⟩ >>= _) = _
  rw [paths]
  rfl

/-- The bytes of a document with a canvas and nothing else. -/
def canvasBytes : List UInt8 :=
  ("\x7b\"id\": \"shadergraph@0.1.0\", " ++
    "\"nodes\": \x7b\"1\": \x7b\"id\": 1, \"name\": \"Canvas\"\x7d\x7d\x7d").toList.map
      fun c => UInt8.ofNat c.toNat

/-- A world with that document in that file, and an older export. -/
def byteWorld : World :=
  { files := { entries := [([byteName], .file canvasBytes 0), (["o"], .file [111] 0)] } }

def canvasGraph : Graph Int := (graph? byteWorld.files ⟨"", [byteName]⟩).getD {}

theorem exists_exports_byteWorld :
    ∃ text, Exports byteWorld ⟨"", [byteName]⟩ none none true text := by
  have found : graph? byteWorld.files ⟨"", [byteName]⟩ = some canvasGraph := by
    have isSome : (graph? byteWorld.files ⟨"", [byteName]⟩).isSome = true := by decide +kernel
    obtain ⟨g, given⟩ := Option.isSome_iff_exists.mp isSome
    rw [canvasGraph, given, Option.getD_some]
  obtain ⟨config, configured⟩ : ∃ config, configuration byteWorld (targetOf none) = .ok config :=
    ⟨_, Outcome.eq_ok_of_isOk (by decide +kernel) {}⟩
  obtain ⟨document, -, loaded⟩ := Option.bind_eq_some_iff.mp found
  have depicts := Document.depicts_of_ofDocument Document.checks_builtin
    (Outcome.toOption_eq_some_iff.mp loaded)
  have acyclic : canvasGraph.Acyclic := acyclic_of_ascending (by decide +kernel)
  have selects : canvasGraph.Selects none 1 := selects_only (by decide +kernel) (by decide +kernel)
  obtain ⟨source, evaluated⟩ := exists_source depicts.sound depicts.registry_eq depicts.writable
    acyclic selects config.target
  refine ⟨finished byteWorld ⟨"", [byteName]⟩ config.target true source,
    exported?_eq_some_iff.mp ?_⟩
  simp only [exported?, configured, found, evaluated, Except.toOption, Option.bind_some]

theorem run_export_delivers_or_refuses_byteWorld :
    byteWorld.files.read ⟨"", ["o"]⟩ = .ok [111] ∧
      (run byteWorld ["export", byteName, "o", "--header"]).failure = some .unencodable ∧
      (run byteWorld ["export", byteName, "o", "--header"]).state.files.read ⟨"", ["o"]⟩ =
        .ok [] := by
  have findable : (byteWorld.files.contains ⟨"", [byteName]⟩).isOk = true := by decide +kernel
  have readable : ∀ bytes, byteWorld.files.read ⟨"", [byteName]⟩ = .ok bytes →
      (Store.readValue bytes).isOk = true := by
    have value : (Store.readValue canvasBytes).isOk = true := by decide +kernel
    have read : byteWorld.files.read ⟨"", [byteName]⟩ = .ok canvasBytes := rfl
    intro bytes found
    rw [read] at found
    cases found
    exact value
  have writable : ∀ p ∈ (some ⟨"", ["o"]⟩ : Option Path),
      (byteWorld.files.write p [] 0).isOk = true := by
    intro p member
    cases member
    decide +kernel
  refine ⟨rfl, ?_⟩
  have fails : ∀ text, Exports byteWorld ⟨"", [byteName]⟩ none none true text →
      Files.encode text = .error .unencodable := fun text exports =>
    exports.encode_eq_error (by decide) (show _ = Text.mark :: Char.ofNat 0x1dc80 :: [] by decide)
      (by decide)
  rcases (run_export_delivers_or_refuses readLine_byteName findable readable writable).1 with
    ⟨text, bytes, exports, encoded, -⟩ | ⟨text, -, -, -, failed, leaves⟩ | ⟨none, -⟩
  · have failed : Files.encode text = .ok bytes := encoded
    rw [fails text exports] at failed
    cases failed
  · exact ⟨failed, leaves.2.read⟩
  · obtain ⟨text, exports⟩ := exists_exports_byteWorld
    exact absurd exports (none text)

end Runs

end Cli

end ShaderFlow
