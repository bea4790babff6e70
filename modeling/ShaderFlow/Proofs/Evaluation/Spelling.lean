import ShaderFlow.Proofs.Evaluation.Reading
import ShaderFlow.Proofs.Graph.Acceptance
import ShaderFlow.Proofs.Kind.Spelling

set_option autoImplicit false

/-
A source is plain text on its lines, and declares the names of its preamble and of its definitions.
Each of them is a word, as the shading language wants it, except for those that are given for a node
with a negative id: the sign stands within the name.
-/

namespace ShaderFlow

open Definition Reading Fragment

namespace Label

variable {id : Int}

theorem mem_intRepr {c : Char} (member : c ∈ id.repr.toList) : isWordPart c = true ∨ c = '-' := by
  rw [Int.repr_eq_if] at member
  split at member
  · exact .inl (isWordPart_of_mem_natRepr member)
  · rw [String.toList_append, List.mem_append] at member
    rcases member with sign | digit
    · exact .inr (by simpa using sign)
    · exact .inl (isWordPart_of_mem_natRepr digit)

theorem minus_mem_intRepr (negative : id < 0) : '-' ∈ id.repr.toList := by
  rw [Int.repr_eq_if, if_neg (by omega)]
  simp

/-- A name given for a node. It is read as one word behind a type, and is a word unless the id has a
sign. -/
structure Legible (id : Int) (n : String) : Prop where
  issued : Issued id n
  label : isLabel n = true
  isWord_iff : isWord n.toList = true ↔ 0 ≤ id

/-- A word that the id and parts of words are joined to. -/
theorem legible_join {word rest : String} (issued : Issued id (word ++ "_" ++ (id.repr ++ rest)))
    (first : isWord word.toList = true) (parts : ∀ c ∈ rest.toList, isWordPart c = true) :
    Legible id (word ++ "_" ++ (id.repr ++ rest)) := by
  refine ⟨issued, isLabel_of_chars (by simp) fun c member => ?_, fun whole => ?_, fun natural => ?_⟩
  · simp only [String.toList_append, List.mem_append] at member
    rcases member with (early | mark) | sign | late
    · exact .inl (isWordPart_of_isWord first c early)
    · obtain rfl : c = '_' := by simpa using mark
      exact .inl rfl
    · exact mem_intRepr sign
    · exact .inl (parts c late)
  · by_contra negative
    have sign : '-' ∈ (word ++ "_" ++ (id.repr ++ rest)).toList := by
      simp [@minus_mem_intRepr id (by omega)]
    exact absurd (isWordPart_of_isWord whole _ sign) (by decide)
  · refine isWord_join first fun c member => ?_
    rw [String.toList_append, List.mem_append] at member
    exact member.elim (isWordPart_of_mem_intRepr natural) (parts c)

theorem legible_own {word : String} (known : word ∈ ["tex", "inv", "split"]) :
    Legible id (word ++ "_" ++ id.repr) := by
  have first : isWord word.toList = true := by
    simp only [List.mem_cons, List.not_mem_nil, or_false] at known
    rcases known with rfl | rfl | rfl <;> rfl
  have same : id.repr = id.repr ++ "" := by simp
  rw [same]
  refine legible_join ?_ first (by simp)
  rw [← same]
  exact .own (.mk word known)

theorem legible_output {key : String} (parts : key.toList.all isWordPart = true) :
    Legible id (outputName id key) := by
  have same : outputName id key = "out" ++ "_" ++ (id.repr ++ ("_" ++ key)) := by
    simp only [outputName, String.append_assoc]
  have issued : Issued id (outputName id key) := .output key
  rw [same] at issued ⊢
  refine legible_join issued rfl fun c member => ?_
  rw [String.toList_append, List.mem_append] at member
  rcases member with mark | late
  · obtain rfl : c = '_' := by simpa using mark
    rfl
  · exact List.all_eq_true.mp parts c late

end Label

namespace Graph

variable {g : Graph Int} {e : Evaluation Int} {sink : Int} {f : Fragment}

/-- The names that are given for nodes that lead to a sink. -/
def Gives (g : Graph Int) (sink : Int) (n : String) : Prop :=
  ∃ id, g.LeadsTo id sink ∧ Label.Legible id n

theorem mem_of_lookup {produced : Outputs} {key : String} (found : produced.lookup key = some f) :
    (key, f) ∈ produced := by
  obtain ⟨front, back, split, -⟩ := List.lookup_eq_some_iff.mp found
  simp [split]

theorem ownNames_gives {id : Int} (path : g.LeadsTo id sink) :
    Kind.OwnNames (g.Gives sink) id.repr :=
  fun _ known => ⟨⟨id, path, Label.legible_own known⟩, (Label.legible_own known).label⟩

/-- Outputs are spelled after those are named that several links read. -/
theorem spelled_bindShared {id : Int} {k : Kind} {produced : Outputs} (path : g.LeadsTo id sink)
    (builtin : k ∈ Registry.builtinKinds) (spelled : Kind.SpelledOutputs (g.Gives sink) produced)
    {key : String} (found : (e.bindShared id k produced).lookup key = some f) :
    f.Spelled (g.Gives sink) := by
  obtain ⟨declared, undeclared⟩ :=
    e.lookup_bindShared id (Kind.builtin_sockets k builtin).1 produced
  by_cases listed : key ∈ k.outputs.map Socket.key
  · obtain ⟨s, member, rfl⟩ := List.mem_map.mp listed
    rw [declared s member] at found
    obtain ⟨f', given, rfl⟩ := Option.map_eq_some_iff.mp found
    have before := spelled _ (mem_of_lookup given)
    have legible := @Label.legible_output id _ (builtin_outputs k builtin s member)
    unfold Evaluation.named
    split
    · refine before.bind ⟨id, path, legible⟩ legible.label ?_
      cases s.type <;> decide
    · exact before
  · rw [undeclared key listed] at found
    exact spelled _ (mem_of_lookup found)

/-- In a whole evaluation every output is spelled. -/
theorem Evaluated.spelled (evaluated : g.Evaluated sink f e) (sound : g.Sound)
    (builtin : g.registry = .builtin) (acyclic : g.Acyclic) :
    ∀ id ∈ e.live, ∀ key f, e.output? id key = some f → f.Spelled (g.Gives sink) := by
  obtain rfl := evaluated.graph_eq
  refine evaluated.induction acyclic fun id live fed key f found => ?_
  obtain ⟨n, k, inputs, produced, recorded⟩ := evaluated.recorded id live
  have path := (evaluated.live id).mp live
  have isBuiltin : k ∈ Registry.builtinKinds := recorded.hosts.builtin builtin
  obtain ⟨k', accepted, valid⟩ := sound.accepts n recorded.member
  obtain rfl : k' = k := by simpa [accepted] using recorded.kind
  have arrives : Kind.SpelledInputs (e.graph.Gives sink) inputs := by
    intro input f first
    rw [Evaluation.first?_of_inputsFor sound recorded.hosts recorded.collected] at first
    obtain ⟨l, link, given⟩ := Option.bind_eq_some_iff.mp first
    obtain ⟨inside, target, -⟩ := mem_linksInto.mp (List.mem_of_head? link)
    exact fed l inside target l.output f given
  obtain ⟨turn, worked⟩ := recorded.worked
  have seat : n.label = id.repr := by
    rw [← recorded.same]
    rfl
  rw [seat] at worked
  rw [recorded.output?_eq] at found
  exact spelled_bindShared path isBuiltin
    (Kind.spelled_builtin isBuiltin valid arrives (ownNames_gives path) worked) found

/-- A source and the program that it is of: the names that it declares are those of the definitions,
and its lines are plain. -/
structure Writes (g : Graph Int) (selector : Option Int) (target : Target) (sink : Int)
    (p : Program) (source : String) : Prop where
  selects : g.Selects selector sink
  built : ∃ f, (g.build (selector.map .int) false).outcome = .ok f ∧
    Program.ofStatements f.statements = .ok p
  written : p.source target = .ok source
  declares : declared source = preambleNames target ++ p.definitions.map name
  named : ∀ d ∈ p.definitions, Term.OrSample (g.Gives sink) d.name
  plain : ∀ c ∈ source.toList, isPlain c = true ∨ c = '\n'

/-- Every source that an evaluation gives is spelled out plainly. -/
theorem exists_writes (sound : g.Sound) (builtin : g.registry = .builtin) {selector : Option Int}
    {target : Target} {source : String}
    (evaluated : (g.evaluate target (selector.map .int) false).outcome = .ok source) :
    ∃ sink p, g.Writes selector target sink p source := by
  obtain ⟨ids, answer, answers, outcome⟩ := outcome_evaluate_eq sound builtin target selector
  rw [evaluated] at outcome
  obtain ⟨-, same⟩ | ⟨-, failed⟩ := writing_cases ids answer
  · rw [same] at outcome
    subst outcome
    cases answers with
    | @source sink _ selects acyclic live _ =>
    obtain ⟨n, selected, rfl⟩ := selectSink_eq_ok sound selects
    rw [evaluate, Logged.outcome_bind] at evaluated
    obtain ⟨f, built, generated⟩ := Outcome.bind_eq_ok_iff.mp evaluated
    rw [outcome_generate] at generated
    obtain ⟨p, made, written⟩ := Outcome.bind_eq_ok_iff.mp generated
    obtain ⟨e, record⟩ := exists_evaluated sound acyclic selected selects.isSink.mem_ids built
    have spelled := record.spelled sound builtin acyclic n.id ((record.live n.id).mpr .refl) _ f
      record.finished
    obtain ⟨lines, body, rest⟩ := Outcome.bind_eq_ok_iff.mp written
    have labels : ∀ m, g.Gives n.id m → isLabel m = true := by
      rintro m ⟨id, path, legible⟩
      exact legible.label
    obtain ⟨plain, names, each⟩ := Program.lines labels spelled.statements made body
    obtain ⟨all, rfl, some, plain, declares⟩ := exists_lines body plain written
    refine ⟨n.id, p, selects, ⟨f, built, made⟩, written, ?_, each, isPlain_or_newline plain⟩
    rw [declared_intercalate some plain, declares, names]
  · rw [failed] at outcome
    cases outcome

/-- Given names are joined from parts, which the names of the preamble are not. -/
theorem not_issued_of_preamble {target : Target} {id : Int} {n : String}
    (member : n ∈ preambleNames target) : ¬ Label.Issued id n := by
  intro issued
  have joined : '_' ∈ n.toList := by
    cases issued with
    | own own =>
      cases own
      simp
    | output key => simp [Label.outputName]
  have whole : ∀ target, ∀ n ∈ preambleNames target, '_' ∉ n.toList := by
    intro target
    cases target <;> decide
  exact whole target n member joined

/-- The source of a loaded document declares the names of its preamble and of its definitions, and
each is a word unless it is given for a node with a negative id. -/
theorem isWord_declared_iff_natural {document : Json} {selector : Option Int} {target : Target}
    {source : String} (loaded : (ofDocument .builtin document).outcome = .ok g)
    (evaluated : (g.evaluate target (selector.map .int) false).outcome = .ok source) :
    ∃ sink f p, g.Selects selector sink ∧ (g.build (selector.map .int) false).outcome = .ok f ∧
      Program.ofStatements f.statements = .ok p ∧
      declared source = preambleNames target ++ p.definitions.map name ∧
      ∀ n ∈ declared source, isWord n.toList = true ↔
        ∀ id, g.LeadsTo id sink → Label.Issued id n → 0 ≤ id := by
  have depicts := Document.depicts_of_ofDocument Document.checks_builtin loaded
  obtain ⟨sink, p, writes⟩ := exists_writes depicts.sound depicts.registry_eq evaluated
  obtain ⟨f, built, made⟩ := writes.built
  refine ⟨sink, f, p, writes.selects, built, made, writes.declares, fun n member => ?_⟩
  rw [writes.declares, List.mem_append] at member
  rcases member with early | late
  · have word : ∀ target, ∀ n ∈ preambleNames target, isWord n.toList = true := by
      intro target
      cases target <;> decide
    exact iff_of_true (word target n early) fun id _ issued =>
      absurd issued (not_issued_of_preamble early)
  · obtain ⟨d, defined, rfl⟩ := List.mem_map.mp late
    rcases writes.named d defined with ⟨id, path, legible⟩ | ⟨index, same⟩
    · rw [legible.isWord_iff]
      refine ⟨fun natural id' _ issued => ?_, fun natural => natural id path legible.issued⟩
      rwa [issued.id_eq legible.issued]
    · refine iff_of_true ?_ fun id _ issued => absurd same (issued.ne_sample index)
      rw [same]
      exact isWord_sample index

/-- A camera with a negative id, shown on the canvas. -/
def signedDocument : Json :=
  let link (node : Int) (side : String) : Json :=
    .obj [("connections", .arr [.obj [("node", .int node), (side, .str "color")]])]
  .obj [("id", .str "shadergraph@0.1.0"), ("nodes", .obj
    [("-1", .obj [("id", .int (-1)), ("name", .str "Webcam"),
      ("outputs", .obj [("color", link 2 "input")])]),
    ("2", .obj [("id", .int 2), ("name", .str "Canvas"),
      ("inputs", .obj [("color", link (-1) "output")])])])]

def signedGraph : Graph Int :=
  (ofDocument .builtin signedDocument : Logged (Graph Int)).outcome.toOption.getD {}

theorem isWord_declared_iff_natural_signed :
    (ofDocument .builtin signedDocument).outcome = .ok signedGraph ∧
      ∃ source, (signedGraph.evaluate .webgl none false).outcome = .ok source ∧
        "tex_-1" ∈ declared source ∧ isWord "tex_-1".toList = false := by
  have loaded : (ofDocument .builtin signedDocument).outcome = .ok signedGraph :=
    Outcome.eq_ok_of_isOk (by decide +kernel) _
  have depicts := Document.depicts_of_ofDocument Document.checks_builtin loaded
  have acyclic : signedGraph.Acyclic := acyclic_of_ascending (by decide +kernel)
  have selects : signedGraph.Selects none 2 := selects_only (by decide +kernel) (by decide +kernel)
  obtain ⟨source, evaluated⟩ := exists_source depicts.sound depicts.registry_eq
    depicts.writable acyclic selects .webgl
  obtain ⟨sink, f, p, selects', built, made, declares, words⟩ :=
    isWord_declared_iff_natural loaded evaluated
  obtain rfl : sink = 2 := (selects sink).mp ((selects' sink).mpr rfl)
  -- The commit statement reads the camera.
  have reads : ((do
      let e ← Evaluation.start signedGraph 2
      let e ← e.runNodes false e.pending
      e.finish : Logged Fragment).outcome.toOption.any fun f =>
        (lowerProgram f.statements).toOption.any fun made =>
          (made.1.filter Program.isCommit).all (·.names.contains "tex_-1")) = true := by
    decide +kernel
  obtain ⟨n, selected, same⟩ := selectSink_eq_ok depicts.sound selects
  simp only [build, Logged.outcome_bind, Logged.outcome_liftM, selected, same, Outcome.ok_bind]
    at built reads
  rw [built] at reads
  obtain ⟨lowered, ran, made⟩ := Program.built_of_ofStatements made
  simp only [Except.toOption, Option.any_some, ran, made.only, List.all_cons, List.all_nil,
    Bool.and_true, List.contains_iff_mem] at reads
  have member : "tex_-1" ∈ declared source := by
    rw [declares, List.mem_append]
    exact .inr ((made.resolves.exact _).mpr (.root reads))
  have linked : ∃ l ∈ signedGraph.links, l.source = -1 ∧ l.target = 2 := by decide +kernel
  have path : signedGraph.LeadsTo (-1) 2 := .head linked .refl
  refine ⟨loaded, source, evaluated, member, ?_⟩
  rw [Bool.eq_false_iff, ne_eq, words _ member]
  intro natural
  exact absurd (natural (-1) path (.own (.mk "tex" (by simp)))) (by decide)

end Graph

end ShaderFlow
