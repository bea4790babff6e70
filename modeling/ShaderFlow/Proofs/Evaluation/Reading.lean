import ShaderFlow.Proofs.Evaluation.Record
import ShaderFlow.Proofs.Evaluation.Totality
import ShaderFlow.Proofs.Kind.Reading

set_option autoImplicit false

/-
Every text that a program holds, read with the usual precedences, is the formula of some worker with
its operands whole. Names stand for samples, for the outputs of nodes, or for what a worker reads
twice.
-/

namespace ShaderFlow

open Definition Reading Lowering

namespace Label

theorem isWordPart_of_mem_intRepr {id : Int} (natural : 0 ≤ id) {c : Char}
    (member : c ∈ id.repr.toList) : isWordPart c = true := by
  rw [Int.repr_eq_if, if_pos natural] at member
  exact isWordPart_of_mem_natRepr member

end Label

namespace Graph

variable {g : Graph Int} {target : Target} {acyclic : g.Acyclic}

section Trees

/-- What an output of a node is read as: the formula of its kind, applied to what the first link
into each input leads to. -/
def tree (g : Graph Int) (target : Target) (acyclic : g.Acyclic) : Int → String → Tree :=
  g.solve acyclic Kind.blackTree (Kind.treeOf target)

/-- What an input of a node is read as. -/
def operandTree (g : Graph Int) (target : Target) (acyclic : g.Acyclic) (id : Int)
    (input : String) : Option Tree :=
  (g.firstLink? id input).map fun l => g.tree target acyclic l.source l.output


theorem tree_eq {id : Int} {n : Node Int} (present : g.find? id = some n) :
    g.tree target acyclic id =
      Kind.treeOf target n.kind (.obj n.data) (g.operandTree target acyclic id) :=
  solve_eq acyclic Kind.blackTree (Kind.treeOf target) present

/-- What the names stand for that an evaluation gives. -/
inductive Named (g : Graph Int) (target : Target) (acyclic : g.Acyclic) : String → Tree → Prop
  | own {id : Int} {n : Node Int} {word : String} (present : g.find? id = some n)
      (given : Kind.ownWord? n.kind = some word) :
      Named g target acyclic (word ++ "_" ++ id.repr)
        (Kind.ownTree target n.kind (.obj n.data) (g.operandTree target acyclic id))
  | output {id : Int} {k : Kind} {s : Socket} (hosts : g.Hosts id k) (declared : s ∈ k.outputs) :
      Named g target acyclic (Label.outputName id s.key) (g.tree target acyclic id s.key)

/-- What the names of a program stand for. -/
inductive Stands (g : Graph Int) (target : Target) (acyclic : g.Acyclic) : String → Tree → Prop
  | named {n : String} {tree : Tree} (named : g.Named target acyclic n tree) :
      Stands g target acyclic n tree
  | sample (index : Nat) (dx dy : Int) : Stands g target acyclic
      (issuedName Term.defaultStem index)
      (.sample target (Kind.smallNumber dx) (Kind.smallNumber dy))

/-- What the names of a program stand for, of which `issues` are the samples. -/
inductive StandsIn (g : Graph Int) (target : Target) (acyclic : g.Acyclic) (issues : List Issue) :
    String → Tree → Prop
  | named {n : String} {tree : Tree} (named : g.Named target acyclic n tree) :
      StandsIn g target acyclic issues n tree
  | sample {i : Issue} {dx dy : Int} (member : i ∈ issues)
      (origin : i.origin = Kind.blurSample dx dy) : StandsIn g target acyclic issues i.name
        (.sample target (Kind.smallNumber dx) (Kind.smallNumber dy))

end Trees

section Names

variable {n : String} {tree tree' : Tree} {issues : List Issue}

theorem Named.issued (named : g.Named target acyclic n tree) : ∃ id, Label.Issued id n := by
  cases named with
  | own present given => exact ⟨_, .own (.mk _ (Kind.ownWord?_known given))⟩
  | output hosts declared => exact ⟨_, .output _⟩

/-- A name stands for one tree: it tells the node, and what of the node it names. -/
theorem Named.unique (named : g.Named target acyclic n tree)
    (named' : g.Named target acyclic n tree') : tree = tree' := by
  cases named with
  | @own id node word present given =>
    have own : Label.Own id (word ++ "_" ++ id.repr) := .mk word (Kind.ownWord?_known given)
    generalize whole : word ++ "_" ++ id.repr = n at named' own
    cases named' with
    | @own id' node' word' present' given' =>
      have own' : Label.Own id' (word' ++ "_" ++ id'.repr) := .mk word' (Kind.ownWord?_known given')
      obtain rfl : id = id' := Label.Issued.id_eq (.own own) (.own own')
      obtain rfl : node = node' := Option.some.inj (present.symm.trans present')
      rfl
    | output hosts declared => exact absurd rfl (own.ne_outputName _)
  | @output id k s hosts declared =>
    generalize whole : Label.outputName id s.key = n at named'
    cases named' with
    | @own id' node' word' present' given' =>
      have own' : Label.Own id' (word' ++ "_" ++ id'.repr) := .mk word' (Kind.ownWord?_known given')
      exact absurd whole.symm (own'.ne_outputName _)
    | output hosts' declared' =>
      obtain ⟨rfl, keys⟩ := Label.outputName_inj whole
      rw [keys]

theorem stem_of_origin {i : Issue} {dx dy : Int} (origin : i.origin = Kind.blurSample dx dy) :
    i.name = issuedName Term.defaultStem i.index := by
  have stem : i.stem = Term.defaultStem := (Term.shared.inj origin).2.2.2
  rw [Issue.name, stem]

theorem StandsIn.stands (stands : g.StandsIn target acyclic issues n tree) :
    g.Stands target acyclic n tree := by
  cases stands with
  | named named => exact .named named
  | sample member origin =>
    rw [stem_of_origin origin]
    exact .sample _ _ _

theorem StandsIn.unique (distinct : (issues.map Issue.name).Nodup)
    (stands : g.StandsIn target acyclic issues n tree)
    (stands' : g.StandsIn target acyclic issues n tree') : tree = tree' := by
  cases stands with
  | named named =>
    cases stands' with
    | named named' => exact named.unique named'
    | sample member origin =>
      obtain ⟨id, issued⟩ := named.issued
      exact absurd (stem_of_origin origin) (issued.ne_sample _)
  | @sample i dx dy member origin =>
    generalize whole : i.name = n at stands'
    cases stands' with
    | named named' =>
      obtain ⟨id, issued⟩ := named'.issued
      exact absurd (whole.symm.trans (stem_of_origin origin)) (issued.ne_sample _)
    | @sample j dx' dy' member' origin' =>
      obtain rfl := List.inj_on_of_nodup_map distinct member member' whole
      obtain ⟨rfl, rfl⟩ := Kind.sampleKey_inj (Term.shared.inj (origin.symm.trans origin')).1
      rfl

theorem builtin_outputs : ∀ k ∈ Registry.builtinKinds, ∀ s ∈ k.outputs,
    s.key.toList.all isWordPart = true := by
  simp only [Registry.builtinKinds, List.forall_mem_cons, List.not_mem_nil, false_implies,
    implies_true, and_true]
  decide

/-- Every name is one word, if ids are written without a sign. -/
theorem Stands.isWord (builtin : g.registry = .builtin) (natural : ∀ id ∈ g.ids, 0 ≤ id)
    (stands : g.Stands target acyclic n tree) : isWord n.toList = true := by
  cases stands with
  | named named =>
    cases named with
    | @own id node word present given =>
      have first : Reading.isWord word.toList = true := by
        have known := Kind.ownWord?_known given
        simp only [List.mem_cons, List.not_mem_nil, or_false] at known
        rcases known with rfl | rfl | rfl <;> rfl
      have id_eq : node.id = id := by simpa using List.find?_some present
      have member : id ∈ g.ids :=
        List.mem_map.mpr ⟨node, List.mem_of_find?_eq_some present, id_eq⟩
      exact isWord_join first fun c => Label.isWordPart_of_mem_intRepr (natural id member)
    | @output id k s hosts declared =>
      have parts := builtin_outputs k (hosts.builtin builtin) s declared
      refine @isWord_join "out" _ rfl fun c within => ?_
      simp only [String.toList_append, List.mem_append] at within
      rcases within with (early | mark) | late
      · exact Label.isWordPart_of_mem_intRepr (natural id hosts.mem_ids) early
      · obtain rfl : c = '_' := by simpa using mark
        rfl
      · exact List.all_eq_true.mp parts c late
  | sample index dx dy =>
    exact @isWord_join "sample" _ rfl fun c => isWordPart_of_mem_natRepr

/-- No name is one of those that are given beforehand. -/
theorem Stands.not_given (stands : g.Stands target acyclic n tree) : n ∉ givenNames := by
  have joined : '_' ∈ n.toList := by
    cases stands with
    | named named =>
      cases named with
      | own present given => simp
      | output hosts declared => simp [Label.outputName]
    | sample index dx dy =>
      show '_' ∈ ("sample" ++ "_" ++ index.repr).toList
      simp
  have plain : ∀ n ∈ givenNames, '_' ∉ n.toList := by decide
  exact fun member => plain n member joined

end Names

section Run

variable {x : Lexicon} {e : Evaluation Int} {id : Int} {k : Kind} {produced : Outputs}

/-- The outputs of a node are read the same once those are named that several links read. -/
theorem presents_bindShared {tree : String → Tree} (e : Evaluation Int) (id : Int)
    (keys : (k.outputs.map Socket.key).Nodup) (noOutputs : k.isSink = true → k.outputs = [])
    (knows : ∀ s ∈ k.outputs, x.stands (Label.outputName id s.key) (tree s.key))
    (presents : Kind.Presents x k produced tree) :
    Kind.Presents x k (e.bindShared id k produced) tree := by
  obtain ⟨declared, undeclared⟩ := e.lookup_bindShared id keys produced
  refine ⟨fun s member => ?_, fun isSink => ?_⟩
  · obtain ⟨f, found, bears⟩ := presents.outputs s member
    refine ⟨e.named id s f, by rw [declared s member, found, Option.map_some], ?_⟩
    unfold Evaluation.named
    split
    · exact bears.bind (knows s member) _
    · exact bears
  · rw [undeclared _ (by simp [noOutputs isSink])]
    exact presents.result isSink

/-- What arrives at a node is read as its operands, if all that feeds it is read as it should. -/
theorem brings_of_recorded {n : Node Int} {inputs : Inputs} (sound : e.graph.Sound)
    {acyclic : e.graph.Acyclic} (recorded : e.Recorded id n k inputs produced)
    (fed : ∀ l ∈ e.graph.links, l.target = id → ∀ k, e.graph.Hosts l.source k →
      Kind.Presents x k ((e.outputs.lookup l.source).getD [])
        (e.graph.tree x.target acyclic l.source)) :
    Kind.Brings x inputs (e.graph.operandTree x.target acyclic id) := by
  intro input
  rw [Evaluation.first?_of_inputsFor sound recorded.hosts recorded.collected, operandTree]
  cases found : e.graph.firstLink? id input with
  | none => exact .none
  | some l =>
    obtain ⟨inside, target, -⟩ := mem_linksInto.mp (List.mem_of_head? found)
    obtain ⟨k', -, o, -, hosts, -, isOutput, -⟩ := sound.joins l inside
    obtain ⟨f, given, bears⟩ := (fed l inside target k' hosts).outputs o
      (List.mem_of_find?_eq_some isOutput)
    have key : o.key = l.output := by simpa using List.find?_some isOutput
    rw [key] at given bears
    have output : e.output? l.source l.output = some f := given
    rw [Option.bind_some, output, Option.map_some]
    exact .some bears

/-- A node that ran is read as it should, if all that feeds it is. -/
theorem presents_of_recorded {n : Node Int} {inputs : Inputs} (sound : e.graph.Sound)
    (builtin : e.graph.registry = .builtin) {acyclic : e.graph.Acyclic}
    (knows : ∀ n tree, e.graph.Named x.target acyclic n tree → x.stands n tree)
    (recorded : e.Recorded id n k inputs produced)
    (fed : ∀ l ∈ e.graph.links, l.target = id → ∀ k, e.graph.Hosts l.source k →
      Kind.Presents x k ((e.outputs.lookup l.source).getD [])
        (e.graph.tree x.target acyclic l.source)) :
    Kind.Presents x k ((e.outputs.lookup id).getD []) (e.graph.tree x.target acyclic id) := by
  have isBuiltin : k ∈ Registry.builtinKinds := recorded.hosts.builtin builtin
  obtain ⟨k', accepted, valid⟩ := sound.accepts n recorded.member
  obtain rfl : k' = k := by simpa [accepted] using recorded.kind
  have label : k'.name = n.kind := by simpa using List.find?_some recorded.kind
  have present : e.graph.find? id = some n := recorded.same ▸ find?_eq_some sound recorded.member
  obtain ⟨turn, worked⟩ := recorded.worked
  have seat : n.label = id.repr := by
    rw [← recorded.same]
    rfl
  rw [seat] at worked
  obtain ⟨keys, noOutputs⟩ := Kind.builtin_sockets k' isBuiltin
  have presents := Kind.presents_builtin isBuiltin valid (brings_of_recorded sound recorded fed)
    (fun word given => knows _ _ (label ▸ .own present (label ▸ given))) worked
  rw [recorded.outputs, Option.getD_some]
  rw [label, ← tree_eq present] at presents
  exact presents_bindShared e id keys noOutputs
    (fun s member => knows _ _ (.output recorded.hosts member)) presents

/-- In a whole evaluation every node is read as it should. -/
theorem Evaluated.presents {sink : Int} {f : Fragment} (evaluated : g.Evaluated sink f e)
    (sound : g.Sound) (builtin : g.registry = .builtin) {acyclic : g.Acyclic}
    (knows : ∀ n tree, g.Named x.target acyclic n tree → x.stands n tree) :
    ∀ id ∈ e.live, ∀ k, g.Hosts id k →
      Kind.Presents x k ((e.outputs.lookup id).getD []) (g.tree x.target acyclic id) := by
  obtain rfl := evaluated.graph_eq
  refine evaluated.induction acyclic fun id live fed k hosts => ?_
  obtain ⟨n, k', inputs, produced, recorded⟩ := evaluated.recorded id live
  obtain rfl := hosts.kind_eq sound recorded.hosts
  exact presents_of_recorded sound builtin knows recorded fed

end Run

section Program

variable {f : Fragment} {issues : List Issue} {ds : List Definition} {value : Term}

/-- The lexicon of a program. -/
def lexicon (target : Target) (acyclic : g.Acyclic) (builtin : g.registry = .builtin)
    (natural : ∀ id ∈ g.ids, 0 ≤ id) (laid : f.Laid issues ds value) : Lexicon where
  target := target
  entries := (issues.map Issue.entry).reverse
  stands := g.StandsIn target acyclic issues
  word _ _ stands := stands.stands.isWord builtin natural
  sampled := by
    intro dx dy n listed
    obtain ⟨i, member, entry⟩ := List.mem_map.mp (List.mem_reverse.mp listed)
    obtain ⟨key, rfl⟩ := Prod.mk.inj entry
    obtain ⟨dx', dy', origin⟩ := laid.samples i member
    obtain ⟨rfl, rfl⟩ := Kind.sampleKey_inj (key.symm.trans (Term.shared.inj origin).1)
    exact .sample member origin

theorem complete_inj {f f' : Fragment}
    (same : f.complete [.commit f.value] = f'.complete [.commit f'.value]) :
    f.statements = f'.statements ∧ f.value = f'.value := by
  obtain ⟨statements, -⟩ := Fragment.mk.inj same
  obtain ⟨front, last⟩ := List.append_inj' statements rfl
  exact ⟨front, by simpa using last⟩

/-- Each definition that was laid stands for what its initializer is read as. -/
theorem exists_shows {x : Lexicon} {tree : Tree} (laid : f.Laid issues ds value)
    (entries : x.entries = (issues.map Issue.entry).reverse)
    (samples : ∀ i ∈ issues, ∀ dx dy, i.origin = Kind.blurSample dx dy →
      x.stands i.name (.sample x.target (Kind.smallNumber dx) (Kind.smallNumber dy)))
    (bears : Kind.Bears x f tree) {d : Definition} (member : d ∈ issues.map Issue.made ++ ds) :
    ∃ tree, x.stands d.name tree ∧ x.Shows .sum d.init tree := by
  rcases List.mem_append.mp member with issued | own
  · obtain ⟨i, inside, rfl⟩ := List.mem_map.mp issued
    obtain ⟨dx, dy, origin, -⟩ := laid.sample inside
    have init : i.init = Kind.textureSample (Kind.smallNumber dx) (Kind.smallNumber dy) :=
      (Term.shared.inj origin).2.2.1
    have replaced := Issue.replaces_of_inOrder laid.inOrder inside
    rw [List.append_nil, ← entries, init] at replaced
    exact ⟨_, samples i inside dx dy origin, Lexicon.reads_textureSample
      (Kind.isFinite_smallNumber dx) (Kind.isFinite_smallNumber dy) _ replaced⟩
  · obtain ⟨given, inside, named, replaced⟩ := exists_of_forall₂ laid.own own
    obtain ⟨n, type, init, tree, same, stands, reads⟩ :=
      bears.explained _ (mem_among.mp inside)
    obtain ⟨rfl, rfl, rfl⟩ := Term.define.inj same
    rw [← entries] at replaced
    exact ⟨tree, named ▸ stands, reads _ replaced⟩

/-- All edits that made a graph were accepted. Then every initializer of the program written for a
sink and its commit statement have a text that can be read in one way. With names put aside for what
their definitions are read as, a definition stands for a sample, for an output of a node or for the
color that a worker reads, and the committed value for what the sink stands for: the formulas of all
workers, each applied to its operands as a whole. -/
theorem emitted_texts_parse_to_trees (target : Target) {edits : List Edit}
    (accepted : Graph.runAccepted {} edits = .ok g) (acyclic : g.Acyclic)
    (natural : ∀ id ∈ g.ids, 0 ≤ id) {selector : Option Int} {sink : Int}
    (selects : g.Selects selector sink) :
    ∃ f p text, (g.build (selector.map .int) false).outcome = .ok f ∧
      Program.ofStatements f.statements = .ok p ∧ p.source target = .ok text ∧
      (g.evaluate target (selector.map .int) false).outcome = .ok text ∧
      ∃ sense : String → Option Tree, (∀ n, sense n ≠ none → n ∈ p.definitions.map name) ∧
        (∀ d ∈ p.definitions, ∃ tree, ParsesTo target d.init tree ∧
          sense d.name = some (tree.expand sense) ∧
          g.Stands target acyclic d.name (tree.expand sense)) ∧
        ∃ value tree, p.commit = .commit value ∧ ParsesTo target value tree ∧
          tree.expand sense = g.tree target acyclic sink Kind.resultKey := by
  obtain ⟨c, f, p, compiled⟩ := exists_compiled accepted acyclic selects
  obtain ⟨rfl, -⟩ := runAccepted_eq_ok (by simp [Graph.ids]) accepted
  have sound : (Graph.run {} edits).Sound := sound_run (.empty _ _) edits
  have builtin : (Graph.run {} edits).registry = .builtin := registry_run {} edits
  obtain ⟨n, selected, rfl⟩ := selectSink_eq_ok sound selects
  obtain ⟨k, hosts, isSink⟩ := selects.isSink
  obtain ⟨e, evaluated⟩ := exists_evaluated sound acyclic selected selects.isSink.mem_ids
    compiled.built
  obtain ⟨hits, issues, ds, value, laid, ran⟩ :=
    Fragment.exists_laid compiled.catalog compiled.scope
  obtain ⟨closed, commit, listed⟩ :=
    Fragment.Laid.program compiled.catalog compiled.scope ran compiled.made
  let x := lexicon target acyclic builtin natural laid
  obtain ⟨f', finished, bears⟩ := (evaluated.presents (x := x) sound builtin
    (fun _ _ named => .named named) n.id ((evaluated.live n.id).mpr .refl) k hosts).result isSink
  have bears : Kind.Bears x f ((Graph.run {} edits).tree target acyclic n.id Kind.resultKey) := by
    obtain ⟨statements, value⟩ :=
      complete_inj (Option.some.inj (evaluated.finished.symm.trans finished))
    exact ⟨value ▸ bears.value, statements ▸ bears.explained⟩
  obtain ⟨sense, within, agrees⟩ := Lexicon.exists_sense (x := x)
    (fun _ _ _ first second => first.unique laid.distinct second)
    (fun _ _ stands => stands.stands.not_given) (p.definitions.map name)
  obtain ⟨text, source, written⟩ := compiled.source target
  refine ⟨_, p, text, compiled.built, compiled.made, source, written, sense, within, ?_, ?_⟩
  · intro d member
    obtain ⟨tree, stands, displays⟩ := exists_shows laid rfl
      (fun i inside dx dy origin => StandsIn.sample inside origin) bears (listed member)
    obtain ⟨said, parses, expands⟩ := displays.exists_parsesTo
    have same : said.expand sense = tree := expands sense
      (agrees.mono fun n refers => closed.inOrder.mem_of_needs member refers)
    rw [← same] at stands
    exact ⟨said, parses, agrees.known d.name (List.mem_map.mpr ⟨d, member, rfl⟩) _ stands,
      stands.stands⟩
  · obtain ⟨said, parses, expands⟩ := (bears.value value laid.value).exists_parsesTo
    refine ⟨value, said, commit, parses, expands sense (agrees.mono fun n refers => ?_)⟩
    exact closed.bound n (by simpa [commit] using refers)

/-- The inverse of a product, of which one factor is a blend of a blur and a shifted video and the
other one is the blur itself. -/
def invertedProduct : List Edit :=
  let place (kind : String) (data : Members) : Edit :=
    .add (.str kind) (.arr [.int 0, .int 0]) (.obj data) none
  let join (source target : Int) (input : String) : Edit :=
    .connect ⟨source, .str "color", target, .str input⟩
  [place "Box Blur" [], place "Webcam" [("offset", .arr [.int (-3), .int 2])],
    place "Blend Colors" [], place "Multiply Colors" [], place "Invert Color" [], place "Canvas" [],
    join 1 3 "colorA", join 2 3 "colorB", join 3 4 "colorA", join 1 4 "colorB", join 4 5 "color",
    join 5 6 "color"]

theorem emitted_texts_parse_to_trees_invertedProduct :
    ∃ (g : Graph Int) (acyclic : g.Acyclic), Graph.runAccepted {} invertedProduct = .ok g ∧
      (∀ id ∈ g.ids, 0 ≤ id) ∧ g.Selects none 6 ∧
      ∃ f p text, (g.build none false).outcome = .ok f ∧
        Program.ofStatements f.statements = .ok p ∧ p.source .opengl33 = .ok text ∧
        (g.evaluate .opengl33 none false).outcome = .ok text ∧
        ∃ sense : String → Option Tree, (∀ n, sense n ≠ none → n ∈ p.definitions.map name) ∧
          (∀ d ∈ p.definitions, ∃ tree, ParsesTo .opengl33 d.init tree ∧
            sense d.name = some (tree.expand sense) ∧
            g.Stands .opengl33 acyclic d.name (tree.expand sense)) ∧
          ∃ value tree, p.commit = .commit value ∧ ParsesTo .opengl33 value tree ∧
            tree.expand sense = g.tree .opengl33 acyclic 6 Kind.resultKey := by
  obtain ⟨accepted, acyclic, selects⟩ := @selects_of_ascending invertedProduct 6
    (by decide +kernel) (by decide +kernel) (by decide +kernel) (by decide +kernel)
  have natural : ∀ id ∈ (Graph.run {} invertedProduct).ids, 0 ≤ id := by decide +kernel
  exact ⟨_, acyclic, accepted, natural, selects,
    emitted_texts_parse_to_trees .opengl33 accepted acyclic natural selects⟩

end Program

end Graph

end ShaderFlow
