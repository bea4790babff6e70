import ShaderFlow.Proofs.Evaluation.Run
import ShaderFlow.Proofs.Fragment.Finish

set_option autoImplicit false

/-
An evaluation ends with a source, a cycle, a missing sink or a choice of sinks that is not settled.
It writes down ids on its way, and the one thing that can keep it from its answer is an id with too
many digits. Accepted edits bring in no such id.
-/

namespace ShaderFlow

open Definition Fragment

namespace Label

/-- No name that an evaluation gives looks like that of a sample. -/
theorem Issued.ne_sample {id : Int} {n : String} (issued : Issued id n) (index : Nat) :
    n ≠ Lowering.issuedName Term.defaultStem index := by
  have sample : Lowering.issuedName Term.defaultStem index = "sample" ++ "_" ++ index.repr := rfl
  rw [sample]
  intro same
  cases issued with
  | own own =>
    obtain ⟨word, known⟩ := own
    obtain ⟨rfl, -⟩ := join_inj_left (own_word_plain known) (by decide) same
    simp at known
  | output key =>
    have words := (join_inj_left (by decide) (by decide) same).1
    exact absurd words (by decide)

end Label

namespace Graph

variable {g : Graph Int}

/-- A node that finishes shaders. -/
def IsSink (g : Graph Int) (id : Int) : Prop := ∃ k, g.Hosts id k ∧ k.isSink = true

/-- The sink that a selector stands for: the one of that id, or else the only one. -/
def Selects (g : Graph Int) : Option Int → Int → Prop
  | some id, sink => sink = id ∧ g.IsSink sink
  | none, sink => ∀ id, g.IsSink id ↔ id = sink

/-- Why no sink can be selected, with the ids that the refusal writes down. -/
inductive Refuses (g : Graph Int) : Option Int → List Int → Error → Prop
  | missing {id : Int} (other : ¬ g.IsSink id) : Refuses g (some id) [id] (.noSink (some (.int id)))
  | sinkless (lacking : ∀ id, ¬ g.IsSink id) : Refuses g none [] (.noSink none)
  | ambiguous {ids : List Int} (several : 1 < ids.length) (nodup : ids.Nodup)
      (sinks : ∀ id, id ∈ ids ↔ g.IsSink id) : Refuses g none ids (.ambiguousSink (ids.map .int))

/-- The answers of an evaluation, each with the ids that it writes down. -/
inductive Answers (g : Graph Int) : Option Int → List Int → Except Error String → Prop
  | source {selector : Option Int} {sink : Int} {ids : List Int} (selects : g.Selects selector sink)
      (acyclic : g.Acyclic) (live : ∀ id, id ∈ ids ↔ g.LeadsTo id sink) (text : String) :
      Answers g selector ids (.ok text)
  | cycle {selector : Option Int} {sink : Int} {ids : List Int} (selects : g.Selects selector sink)
      (cyclic : ¬ g.Acyclic) (stuck : ∀ id, id ∈ ids ↔ id ∈ g.ids ∧ ¬ Acc g.Feeds id) :
      Answers g selector ids (.error (.cycle (ids.map .int)))
  | refused {selector : Option Int} {ids : List Int} {e : Error}
      (refuses : g.Refuses selector ids e) : Answers g selector ids (.error e)

theorem isSink_iff {id : Int} : g.IsSink id ↔
    ∃ n ∈ g.nodes, n.id = id ∧ (g.registry.find? n.kind).any (·.isSink) = true := by
  simp only [Option.any_eq_true]
  constructor
  · rintro ⟨k, ⟨n, member, same, found⟩, isSink⟩
    exact ⟨n, member, same, k, found, isSink⟩
  · rintro ⟨n, member, same, k, found, isSink⟩
    exact ⟨k, ⟨n, member, same, found⟩, isSink⟩

theorem IsSink.mem_ids {id : Int} (isSink : g.IsSink id) : id ∈ g.ids := by
  obtain ⟨k, hosts, -⟩ := isSink
  exact hosts.mem_ids

theorem exists_sinks (sound : g.Sound) : ∃ sinks, g.sinks = .ok sinks ∧ sinks ⊆ g.nodes ∧
    (sinks.map Node.id).Nodup ∧ ∀ id, id ∈ sinks.map Node.id ↔ g.IsSink id := by
  let sorted := g.nodes.mergeSort fun a b => decide (a.id ≤ b.id)
  have perm : sorted.Perm g.nodes := List.mergeSort_perm _ _
  refine ⟨sorted.filter fun n => (g.registry.find? n.kind).any (·.isSink), rfl, ?_, ?_, ?_⟩
  · exact fun n member => perm.mem_iff.mp (List.mem_filter.mp member).1
  · exact ((perm.map Node.id).nodup_iff.mpr sound.nodup).sublist (List.filter_sublist.map _)
  · intro id
    simp only [isSink_iff, List.mem_map, List.mem_filter, perm.mem_iff]
    exact exists_congr fun n => and_right_comm.trans and_assoc

theorem Selects.isSink {selector : Option Int} {sink : Int} (selects : g.Selects selector sink) :
    g.IsSink sink := by
  cases selector with
  | some id => exact selects.2
  | none => exact (selects sink).mpr rfl

/-- A sink is selected, or the answer is that none can be. -/
theorem selectSink_cases (sound : g.Sound) (selector : Option Int) :
    (∃ n, g.selectSink (selector.map .int) = .ok n ∧ g.Selects selector n.id) ∨
      ∃ ids e, g.Refuses selector ids e ∧
        g.selectSink (selector.map .int) = writing ids (.error e) := by
  obtain ⟨sinks, made, inside, nodup, members⟩ := exists_sinks sound
  rw [selectSink, made, Outcome.ok_bind]
  cases selector with
  | some id =>
    simp only [Option.map_some]
    cases found : sinks.find? fun n => (NodeId.toJson n.id).alike (.int id) with
    | some n =>
      have same : n.id = id := by
        have alike := List.find?_some found
        simpa [NodeId.toJson, Json.alike] using alike
      have isSink : g.IsSink n.id :=
        (members n.id).mp (List.mem_map.mpr ⟨n, List.mem_of_find?_eq_some found, rfl⟩)
      exact .inl ⟨n, rfl, same, isSink⟩
    | none =>
      have other : ¬ g.IsSink id := by
        intro isSink
        obtain ⟨n, member, same⟩ := List.mem_map.mp ((members id).mpr isSink)
        have apart := List.find?_eq_none.mp found n member
        simp [NodeId.toJson, Json.alike, same] at apart
      refine .inr ⟨[id], _, .missing other, ?_⟩
      simp only [writing, List.map_cons, List.map_nil, List.forM_eq_forM, List.forM_cons,
        List.forM_nil, bind_assoc, pure_bind]
      rfl
  | none =>
    simp only [Option.map_none]
    rcases sinks with _ | ⟨n, _ | ⟨m, rest⟩⟩
    · refine .inr ⟨[], _, .sinkless fun id isSink => ?_, rfl⟩
      simpa using (members id).mpr isSink
    · refine .inl ⟨n, rfl, fun id => ?_⟩
      rw [← members]
      simp
    · refine .inr ⟨(n :: m :: rest).map Node.id, _, .ambiguous (by simp) nodup members, ?_⟩
      simp only [writing, List.map_map]
      rfl

/-- What is selected is not refused, and is what the selector stands for. -/
theorem selectSink_eq_ok (sound : g.Sound) {selector : Option Int} {sink : Int}
    (selects : g.Selects selector sink) :
    ∃ n, g.selectSink (selector.map .int) = .ok n ∧ n.id = sink := by
  rcases selectSink_cases sound selector with ⟨n, selected, selects'⟩ | ⟨ids, e, refuses, -⟩
  · refine ⟨n, selected, ?_⟩
    cases selector with
    | some id => exact selects'.1.trans selects.1.symm
    | none => exact (selects n.id).mp ((selects' n.id).mpr rfl)
  · cases refuses with
    | missing other => exact absurd (selects.1 ▸ selects.2) other
    | sinkless lacking => exact absurd selects.isSink (lacking sink)
    | ambiguous several nodup sinks =>
      have alone : ∀ id ∈ ids, id = sink := fun id member => (selects id).mp ((sinks id).mp member)
      have short := (List.nodup_iff_count_le_one.mp nodup) sink
      rw [List.count_eq_length.mpr fun id member => (alone id member).symm] at short
      omega

/-- For a selected sink of a graph without cycles there is a program, and its commit statement means
what the sink stands for. -/
theorem exists_program (sound : g.Sound) (builtin : g.registry = .builtin) (acyclic : g.Acyclic)
    {selector : Option Json} {n : Node Int} (selected : g.selectSink selector = .ok n)
    (isSink : g.IsSink n.id) :
    ∃ ids f p, (∀ id, id ∈ ids ↔ g.LeadsTo id n.id) ∧
      (g.build selector false).outcome = writing ids (.ok f) ∧ WellFormed f.statements ∧
      Program.ofStatements f.statements = .ok p ∧ p.Closed ∧
      p.commit.inlineWith (environment p.definitions) =
        (Term.commit (g.meaning acyclic n.id Kind.resultKey)).ungroup := by
  obtain ⟨k, hosts, finishes⟩ := isSink
  obtain ⟨ids, c, f, live, catalog, issued, ⟨scope, means⟩, built⟩ :=
    build_eq sound builtin acyclic selected hosts finishes
  have unsampled : ∀ d ∈ c, ∀ index, d.name ≠ Lowering.issuedName Term.defaultStem index := by
    intro d member index
    obtain ⟨id, issued⟩ := issued d member
    exact issued.ne_sample index
  obtain ⟨p, made, closed, kept⟩ := Fragment.exists_program catalog scope unsampled
  refine ⟨ids, _, p, live, built, wellFormed_complete catalog scope, made, closed, ?_⟩
  rw [kept, means]
  rfl

/-- A selected sink of a graph without cycles has a source. -/
theorem outcome_evaluate_of_acyclic (sound : g.Sound) (builtin : g.registry = .builtin)
    (acyclic : g.Acyclic) {selector : Option Json} {n : Node Int}
    (selected : g.selectSink selector = .ok n) (isSink : g.IsSink n.id) (target : Target) :
    ∃ ids text, (∀ id, id ∈ ids ↔ g.LeadsTo id n.id) ∧
      (g.evaluate target selector false).outcome = writing ids (.ok text) := by
  obtain ⟨ids, f, p, live, built, wellFormed, made, -⟩ :=
    exists_program sound builtin acyclic selected isSink
  obtain ⟨text, generated⟩ := exists_generate wellFormed target made
  refine ⟨ids, text, live, ?_⟩
  rw [evaluate, Logged.outcome_bind, built, writing_bind, Outcome.ok_bind, generated]

theorem outcome_evaluate_of_cyclic (sound : g.Sound) (cyclic : ¬ g.Acyclic) {selector : Option Json}
    {n : Node Int} (selected : g.selectSink selector = .ok n) (target : Target) :
    ∃ ids, (∀ id, id ∈ ids ↔ id ∈ g.ids ∧ ¬ Acc g.Feeds id) ∧
      (g.evaluate target selector false).outcome =
        writing ids (.error (.cycle (ids.map .int))) := by
  obtain ⟨acyclic, _⟩ | ⟨_, ids, -, stuck, full⟩ := fullOrder_cases sound
  · exact absurd acyclic cyclic
  · refine ⟨ids, stuck, ?_⟩
    simp only [evaluate, build, Logged.outcome_bind, Logged.outcome_liftM, selected,
      Outcome.ok_bind, Evaluation.start, order, full, writing_bind, Outcome.error_bind]

/-- An evaluation writes some ids down and then gives its answer. -/
theorem outcome_evaluate_eq (sound : g.Sound) (builtin : g.registry = .builtin) (target : Target)
    (selector : Option Int) : ∃ ids answer, g.Answers selector ids answer ∧
      (g.evaluate target (selector.map .int) false).outcome = writing ids answer := by
  rcases selectSink_cases sound selector with ⟨n, selected, selects⟩ | ⟨ids, e, refuses, failed⟩
  · by_cases acyclic : g.Acyclic
    · obtain ⟨ids, text, live, evaluated⟩ :=
        outcome_evaluate_of_acyclic sound builtin acyclic selected selects.isSink target
      exact ⟨ids, .ok text, .source selects acyclic live text, evaluated⟩
    · obtain ⟨ids, stuck, evaluated⟩ := outcome_evaluate_of_cyclic sound acyclic selected target
      exact ⟨ids, _, .cycle selects acyclic stuck, evaluated⟩
  · refine ⟨ids, _, .refused refuses, ?_⟩
    simp only [evaluate, build, Logged.outcome_bind, Logged.outcome_liftM, failed, writing_bind,
      Outcome.error_bind]

/-- Only ids of nodes are written down, and a selector that fits none. -/
theorem Answers.mem_ids (sound : g.Sound) {selector : Option Int} {ids : List Int}
    {answer : Except Error String} (answers : g.Answers selector ids answer) :
    ∀ id ∈ ids, id ∈ g.ids ∨ id ∈ selector := by
  intro id member
  cases answers with
  | source selects acyclic live text =>
    exact .inl (((live id).mp member).mem_ids sound selects.isSink.mem_ids)
  | cycle selects cyclic stuck => exact .inl ((stuck id).mp member).1
  | refused refuses =>
    cases refuses with
    | missing other => exact .inr (by simpa [eq_comm] using member)
    | sinkless => cases member
    | ambiguous several nodup sinks => exact .inl ((sinks id).mp member).mem_ids

theorem Answers.isEvaluation {selector : Option Int} {ids : List Int} {e : Error}
    (answers : g.Answers selector ids (.error e)) : e.isEvaluation = true := by
  cases answers with
  | cycle selects cyclic stuck => rfl
  | refused refuses => cases refuses <;> rfl

/-- When all ids can be written, an evaluation gives its answer. -/
theorem exists_answers (sound : g.Sound) (builtin : g.registry = .builtin)
    (writable : ∀ id ∈ g.ids, Writable id) {selector : Option Int}
    (fits : ∀ id ∈ selector, Writable id) (target : Target) :
    ∃ ids, g.Answers selector ids (g.evaluate target (selector.map .int) false).outcome := by
  obtain ⟨ids, answer, answers, evaluated⟩ := outcome_evaluate_eq sound builtin target selector
  have written : ∀ id ∈ ids, Writable id := fun id member =>
    (answers.mem_ids sound id member).elim (writable id) (fits id)
  rw [evaluated, writing, writeAll_eq_ok written, Outcome.ok_bind]
  exact ⟨ids, answers⟩

/-- A selected sink of a graph without cycles, whose ids can all be written, has a source. -/
theorem exists_source (sound : g.Sound) (builtin : g.registry = .builtin)
    (writable : ∀ id ∈ g.ids, Writable id) (acyclic : g.Acyclic) {selector : Option Int}
    {sink : Int} (selects : g.Selects selector sink) (target : Target) :
    ∃ text, (g.evaluate target (selector.map .int) false).outcome = .ok text := by
  obtain ⟨n, selected, rfl⟩ := selectSink_eq_ok sound selects
  obtain ⟨ids, text, live, evaluated⟩ :=
    outcome_evaluate_of_acyclic sound builtin acyclic selected selects.isSink target
  have written : ∀ id ∈ ids, Writable id := fun id member =>
    writable id (((live id).mp member).mem_ids sound selects.isSink.mem_ids)
  rw [writing, writeAll_eq_ok written, Outcome.ok_bind] at evaluated
  exact ⟨text, evaluated⟩

/-- Every evaluation of a graph that edits made gives a source, or reports a cycle, a missing sink
or an open choice, unless an id that it has to write down has too many digits. When all edits were
accepted it has to write down no such id. -/
theorem evaluate_answers_unless_unwritable (target : Target) (edits : List Edit)
    (selector : Option Int) :
    ∃ ids answer, (Graph.run {} edits).Answers selector ids answer ∧
      ((∀ id ∈ ids, Writable id) ∧
          ((Graph.run {} edits).evaluate target (selector.map .int) false).outcome = answer ∨
        (∃ id ∈ ids, ¬ Writable id) ∧
          ((Graph.run {} edits).evaluate target (selector.map .int) false).outcome =
            .error unwritable) ∧
      ((∃ g, Graph.runAccepted {} edits = .ok g) → (∀ id ∈ selector, Writable id) →
        ∀ id ∈ ids, Writable id) := by
  have sound : (Graph.run {} edits).Sound := sound_run (.empty _ _) edits
  have builtin : (Graph.run {} edits).registry = .builtin := registry_run {} edits
  obtain ⟨ids, answer, answers, evaluated⟩ := outcome_evaluate_eq sound builtin target selector
  refine ⟨ids, answer, answers, ?_, ?_⟩
  · rw [evaluated]
    exact writing_cases ids answer
  · rintro ⟨g, accepted⟩ fits id member
    obtain ⟨rfl, short⟩ := runAccepted_eq_ok (by simp [Graph.ids]) accepted
    exact (answers.mem_ids sound id member).elim (short id) (fits id)

theorem evaluate_answers_unless_unwritable_longIds :
    (∃ id, (Graph.run {} longIds).IsSink id ∧ ¬ Writable id) ∧
      ((Graph.run {} longIds).evaluate .webgl none false).outcome = .error unwritable := by
  obtain ⟨id, isSink, long⟩ : ∃ id, (Graph.run {} longIds).IsSink id ∧ ¬ Writable id := by
    refine ⟨Json.integerBound, ?_, fun short => ?_⟩
    · rw [isSink_iff]
      decide +kernel
    · have failed : (Json.int Json.integerBound).checkWritable.isOk = false := by decide +kernel
      rw [Writable] at short
      rw [short] at failed
      cases failed
  have unlinked : (Graph.run {} longIds).links = [] := by decide +kernel
  refine ⟨⟨id, isSink, long⟩, ?_⟩
  obtain ⟨ids, answer, answers, ⟨short, -⟩ | ⟨-, failed⟩, -⟩ :=
    evaluate_answers_unless_unwritable .webgl longIds none
  · cases answers with
    | @source sink _ selects acyclic live text =>
      obtain rfl : id = sink := (selects id).mp isSink
      exact absurd (short id ((live id).mpr .refl)) long
    | cycle selects cyclic stuck =>
      refine absurd ⟨fun id => ⟨id, ?_⟩⟩ cyclic
      rintro a ⟨l, member, -⟩
      simp [unlinked] at member
    | refused refuses =>
      cases refuses with
      | sinkless lacking => exact absurd isSink (lacking id)
      | ambiguous several nodup sinks => exact absurd (short id ((sinks id).mpr isSink)) long
  · exact failed

/-- What a selected sink is compiled to: a finished fragment over a catalog of issued names, the
program made of it and, for every target, a source. -/
structure Compiled (g : Graph Int) (selector : Option Int) (c : List Definition) (f : Fragment)
    (p : Program) : Prop where
  catalog : Catalog c
  issued : ∀ d ∈ c, ∃ id, Label.Issued id d.name
  scope : Scoped c f
  built : (g.build (selector.map .int) false).outcome = .ok (f.complete [.commit f.value])
  made : Program.ofStatements (f.complete [.commit f.value]).statements = .ok p
  source : ∀ target, ∃ text, p.source target = .ok text ∧
    (g.evaluate target (selector.map .int) false).outcome = .ok text

/-- Every selected sink of a graph without cycles that accepted edits made is compiled. -/
theorem exists_compiled {edits : List Edit} (accepted : Graph.runAccepted {} edits = .ok g)
    (acyclic : g.Acyclic) {selector : Option Int} {sink : Int}
    (selects : g.Selects selector sink) : ∃ c f p, g.Compiled selector c f p := by
  obtain ⟨rfl, short⟩ := runAccepted_eq_ok (by simp [Graph.ids]) accepted
  have sound : (Graph.run {} edits).Sound := sound_run (.empty _ _) edits
  have builtin : (Graph.run {} edits).registry = .builtin := registry_run {} edits
  obtain ⟨n, selected, rfl⟩ := selectSink_eq_ok sound selects
  obtain ⟨k, hosts, finishes⟩ := selects.isSink
  obtain ⟨ids, c, f, live, catalog, issued, ⟨scope, -⟩, built⟩ :=
    build_eq sound builtin acyclic selected hosts finishes
  have written : ∀ id ∈ ids, Writable id := fun id member =>
    short id (((live id).mp member).mem_ids sound selects.isSink.mem_ids)
  rw [writeAll_eq_ok written, Outcome.ok_bind] at built
  have unsampled : ∀ d ∈ c, ∀ index, d.name ≠ Lowering.issuedName Term.defaultStem index := by
    intro d member index
    obtain ⟨id, issued⟩ := issued d member
    exact issued.ne_sample index
  obtain ⟨p, made, -, -⟩ := Fragment.exists_program catalog scope unsampled
  refine ⟨c, f, p, catalog, issued, scope, built, made, fun target => ?_⟩
  obtain ⟨text, generated⟩ := exists_generate (wellFormed_complete catalog scope) target made
  refine ⟨text, ?_, ?_⟩
  · rwa [outcome_generate, made, Outcome.ok_bind] at generated
  · rw [evaluate, Logged.outcome_bind, built]
    exact generated

/-- The only node of a sink kind is selected. -/
theorem selects_only {sink : Int} (present : ∃ n ∈ g.nodes, n.id = sink)
    (only : ∀ n ∈ g.nodes, (g.registry.find? n.kind).any (·.isSink) = (n.id == sink)) :
    g.Selects none sink := by
  intro id
  rw [isSink_iff]
  constructor
  · rintro ⟨n, member, rfl, isSink⟩
    simpa [only n member] using isSink
  · rintro rfl
    obtain ⟨n, member, same⟩ := present
    exact ⟨n, member, same, by rw [only n member, same]; simp⟩

/-- Edits whose links ascend and that place one sink make a graph without cycles, and that sink is
selected. -/
theorem selects_of_ascending {edits : List Edit} {sink : Int}
    (ran : (Graph.runAccepted {} edits).isOk = true)
    (ascending : ∀ l ∈ (Graph.run {} edits).links, l.source.toNat < l.target.toNat)
    (present : ∃ n ∈ (Graph.run {} edits).nodes, n.id = sink)
    (only : ∀ n ∈ (Graph.run {} edits).nodes,
      ((Graph.run {} edits).registry.find? n.kind).any (·.isSink) = (n.id == sink)) :
    Graph.runAccepted {} edits = .ok (Graph.run {} edits) ∧ (Graph.run {} edits).Acyclic ∧
      (Graph.run {} edits).Selects none sink := by
  refine ⟨?_, acyclic_of_ascending ascending, selects_only present only⟩
  cases result : Graph.runAccepted {} edits with
  | ok g => rw [(runAccepted_eq_ok (by simp [Graph.ids]) result).1]
  | error e => simp [result, Except.isOk, Except.toBool] at ran

end Graph

section Plain

/- Some graphs need no definitions: all of their program is the commit statement. -/

theorem Program.Built.definitions_eq_nil {commit : Term} {p : Program} (built : Built [commit] p) :
    p.commit = commit ∧ p.definitions = [] := by
  have same : p.commit = commit := List.mem_singleton.mp (mem_of_only built.only)
  refine ⟨same, List.eq_nil_iff_forall_not_mem.mpr fun d member => ?_⟩
  have inside : d.toTerm ∈ [commit] :=
    built.subset (List.mem_append_left _ (List.mem_map_of_mem member))
  have commits : p.commit ∈ [commit].filter isCommit := by simp [built.only]
  rw [same, ← List.mem_singleton.mp inside] at commits
  cases (List.mem_filter.mp commits).2

/-- Only a graph without cycles has an order of all nodes. -/
theorem Graph.acyclic_of_isOk {g : Graph Int} (sound : g.Sound)
    (ordered : g.fullOrder.isOk = true) :
    g.Acyclic := by
  rcases fullOrder_cases sound with ⟨acyclic, -⟩ | ⟨-, stuck, -, -, full⟩
  · exact acyclic
  · have made := Outcome.eq_ok_of_isOk ordered []
    exact absurd (full.symm.trans made) (writing_error_ne_ok _ _ _)

/-- The source for the only sink of a graph that needs no definitions. -/
def Graph.plainSource? (g : Graph Int) (target : Target) (sink : Int) : Option String :=
  if g.fullOrder.isOk && g.nodes.any (·.id == sink) &&
      g.nodes.all fun n => (g.registry.find? n.kind).any (·.isSink) == (n.id == sink) then do
    let built : Logged Fragment := do
      let e ← Evaluation.start g sink
      let e ← e.runNodes false e.pending
      e.finish
    let (lowered, _) ← (lowerProgram (← built.outcome.toOption).statements).toOption
    match lowered with
    | [commit] => (Program.source target ⟨[], commit, 0, 0⟩).toOption
    | _ => none
  else none

variable {target : Target} {sink : Int} {text : String}

/-- As the source is known to exist, only the commit statement has to be looked at. -/
theorem Graph.evaluate_of_plainSource? {g : Graph Int} (sound : g.Sound)
    (builtin : g.registry = .builtin) (writable : ∀ id ∈ g.ids, Writable id)
    (plain : g.plainSource? target sink = some text) :
    (g.evaluate target none false).outcome = .ok text := by
  unfold plainSource? at plain
  split at plain
  · rename_i checks
    simp only [Bool.and_eq_true, List.all_eq_true, List.any_eq_true, beq_iff_eq] at checks
    obtain ⟨⟨ordered, present⟩, only⟩ := checks
    have selects : g.Selects none sink := selects_only present only
    obtain ⟨text', evaluated⟩ := exists_source sound builtin writable
      (acyclic_of_isOk sound ordered) selects target
    obtain ⟨n, selected, rfl⟩ := selectSink_eq_ok sound selects
    rw [Option.map_none] at evaluated selected
    obtain ⟨f, built, lowers⟩ := Option.bind_eq_some_iff.mp plain
    obtain ⟨⟨lowered, hits⟩, lowers, writes⟩ := Option.bind_eq_some_iff.mp lowers
    have built : (g.build none false).outcome = .ok f := by
      rw [build, selected, Logged.liftM_ok_bind]
      exact Outcome.toOption_eq_some_iff.mp built
    have generated : (f.generate target).outcome = .ok text' := by
      rwa [evaluate, Logged.outcome_bind, built, Outcome.ok_bind] at evaluated
    rw [Fragment.outcome_generate] at generated
    obtain ⟨p, made, source⟩ := Outcome.bind_eq_ok_iff.mp generated
    obtain ⟨lowered', lowers', made⟩ := Program.built_of_ofStatements made
    rw [Outcome.toOption_eq_some_iff.mp lowers] at lowers'
    cases lowers'
    dsimp only at writes
    split at writes
    · obtain ⟨rfl, bare⟩ := made.definitions_eq_nil
      have same : p.source target = .ok text := by
        rw [← Outcome.toOption_eq_some_iff.mp writes, Program.source, Program.body, bare]
        rfl
      rw [evaluated, ← source, same]
    · cases writes
  · cases plain

end Plain

end ShaderFlow
