import ShaderFlow.Proofs.Evaluation.Totality
import ShaderFlow.Proofs.Program.Unfolding

set_option autoImplicit false

namespace ShaderFlow

open Definition Fragment

namespace Graph

variable {g : Graph Int}

/-- The program that is written for a sink of a graph that accepted edits made unfolds, after as
many rounds as it has definitions, to what plain recursion over the graph gives, up to grouping. A
refused edit can leave an id behind that no program can be written for, so all edits are to be
accepted. -/
theorem evaluate_preserves_meaning (target : Target) {edits : List Edit}
    (accepted : Graph.runAccepted {} edits = .ok g) (acyclic : g.Acyclic) {selector : Option Int}
    {sink : Int} (selects : g.Selects selector sink) :
    ∃ f p text, (g.build (selector.map .int) false).outcome = .ok f ∧
      Program.ofStatements f.statements = .ok p ∧ p.source target = .ok text ∧
      (g.evaluate target (selector.map .int) false).outcome = .ok text ∧
      (((unfold p.definitions)^[p.definitions.length]) p.commit).names = [] ∧
      (((unfold p.definitions)^[p.definitions.length]) p.commit).ungroup =
        (Term.commit (g.meaning acyclic sink Kind.resultKey)).ungroup := by
  obtain ⟨rfl, short⟩ := runAccepted_eq_ok (by simp [Graph.ids]) accepted
  have sound : (Graph.run {} edits).Sound := sound_run (.empty _ _) edits
  have builtin : (Graph.run {} edits).registry = .builtin := registry_run {} edits
  obtain ⟨n, selected, rfl⟩ := selectSink_eq_ok sound selects
  obtain ⟨ids, f, p, live, built, wellFormed, made, closed, means⟩ :=
    exists_program sound builtin acyclic selected selects.isSink
  have written : ∀ id ∈ ids, Writable id := fun id member =>
    short id (((live id).mp member).mem_ids sound selects.isSink.mem_ids)
  rw [writing, writeAll_eq_ok written, Outcome.ok_bind] at built
  obtain ⟨text, generated⟩ := exists_generate wellFormed target made
  have source : p.source target = .ok text := by
    rwa [outcome_generate, made, Outcome.ok_bind] at generated
  refine ⟨f, p, text, built, made, source, ?_, closed.unfold_commit.1, ?_⟩
  · rw [evaluate, Logged.outcome_bind, built, Outcome.ok_bind, generated]
  · rw [closed.unfold_commit.2, means]

/-- A blur blended with its inverse, so that its color is read twice. -/
def invertedBlur : List Edit :=
  let place (kind : String) : Edit := .add (.str kind) (.arr [.int 0, .int 0]) (.obj []) none
  let join (source target : Int) (input : String) : Edit :=
    .connect ⟨source, .str "color", target, .str input⟩
  [place "Box Blur", place "Invert Color", place "Blend Colors", place "Canvas",
    join 1 2 "color", join 1 3 "colorA", join 2 3 "colorB", join 3 4 "color"]

theorem evaluate_preserves_meaning_invertedBlur :
    ∃ (g : Graph Int) (acyclic : g.Acyclic), Graph.runAccepted {} invertedBlur = .ok g ∧
      g.Selects none 4 ∧
      ∃ f p text, (g.build none false).outcome = .ok f ∧
        Program.ofStatements f.statements = .ok p ∧ p.source .webgl = .ok text ∧
        (g.evaluate .webgl none false).outcome = .ok text ∧
        (((unfold p.definitions)^[p.definitions.length]) p.commit).names = [] ∧
        (((unfold p.definitions)^[p.definitions.length]) p.commit).ungroup =
          (Term.commit (g.meaning acyclic 4 Kind.resultKey)).ungroup := by
  have ran : (Graph.runAccepted {} invertedBlur).isOk = true := by decide +kernel
  obtain ⟨g, accepted⟩ : ∃ g, Graph.runAccepted {} invertedBlur = .ok g := by
    cases result : Graph.runAccepted {} invertedBlur with
    | ok g => exact ⟨g, rfl⟩
    | error e => simp [result, Except.isOk, Except.toBool] at ran
  obtain rfl := (runAccepted_eq_ok (by simp [Graph.ids]) accepted).1
  have ascending : ∀ l ∈ (Graph.run {} invertedBlur).links, l.source.toNat < l.target.toNat := by
    decide +kernel
  have acyclic : (Graph.run {} invertedBlur).Acyclic := by
    refine Subrelation.wf ?_ (measure Int.toNat).wf
    rintro a b ⟨l, member, rfl, rfl⟩
    exact ascending l member
  have last : ∀ n ∈ (Graph.run {} invertedBlur).nodes,
      ((Graph.run {} invertedBlur).registry.find? n.kind).any (·.isSink) = (n.id == 4) := by
    decide +kernel
  have present : ∃ n ∈ (Graph.run {} invertedBlur).nodes, n.id = 4 := by decide +kernel
  have selects : (Graph.run {} invertedBlur).Selects none 4 := by
    intro id
    rw [isSink_iff]
    constructor
    · rintro ⟨n, member, rfl, isSink⟩
      simpa [last n member] using isSink
    · rintro rfl
      obtain ⟨n, member, same⟩ := present
      exact ⟨n, member, same, by rw [last n member, same]; rfl⟩
  exact ⟨_, acyclic, accepted, selects,
    evaluate_preserves_meaning .webgl accepted acyclic selects⟩

end Graph

end ShaderFlow
