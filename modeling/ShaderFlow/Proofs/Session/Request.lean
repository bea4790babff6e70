import ShaderFlow.Proofs.Graph.Atomicity
import ShaderFlow.Proofs.Graph.Document
import ShaderFlow.Session.Edit

set_option autoImplicit false

namespace ShaderFlow

/-- An edit that a session offers. -/
inductive Request (ι : Type) where
  | add (kind position data : Json)
  | remove (id : ι)
  | clone (id : ι)
  | move (id : ι) (position : Json)
  | connect (d : Declaration ι)
  | disconnect (d : Declaration ι)
  | load (document : Json)

/-- The edit of the graph that a request asks for. -/
def Request.toEdit : Request Int → Edit
  | .add kind position data => .add kind position data none
  | .remove id => .remove id
  | .clone id => .clone id Graph.cloneOffset
  | .move id position => .move id position
  | .connect d => .connect d
  | .disconnect d => .disconnect d
  | .load document => .load document

namespace Session

section Edits

variable {ι : Type} [BEq ι] [NodeId ι]

/-- The session after a request, and what came of it. -/
def request (s : Session ι) : Request ι → Session ι × Except Error Unit
  | .add kind position data => report (s.addNode kind position data)
  | .remove id => report (s.removeNode id)
  | .clone id => report (s.cloneNode id)
  | .move id position => report (s.moveNode id position)
  | .connect d => report (s.connect d)
  | .disconnect d => report (s.disconnect d)
  | .load document => report (s.loadDocument document)
where
  report {α : Type} (result : Session ι × Except Error α) : Session ι × Except Error Unit :=
    (result.1, result.2.map fun _ => ())

/-- An edit fails and takes over the graph alone, or it reports the new document to a listener and
may start a pass. -/
theorem edit_cases {α : Type} (s : Session ι) (edited : Graph ι × Logged α) (regenerate : Bool) :
    (∃ e, (edited.2.outcome = .error e ∨ edited.1.toDocument = .error e) ∧
        s.edit edited regenerate =
          ({ s with graph := edited.1, log := s.log ++ edited.2.events }, .error e)) ∨
    ∃ a changes, edited.2.outcome = .ok a ∧
      s.edit edited regenerate =
        (let changed : Session ι :=
          { s with graph := edited.1, log := s.log ++ edited.2.events, changes }
        if regenerate then changed.trigger.1 else changed, .ok a) := by
  obtain ⟨g, events, outcome⟩ := edited
  cases outcome with
  | error e => exact .inl ⟨e, .inl rfl, rfl⟩
  | ok a =>
    simp only [edit, absorb, announce]
    by_cases listens : s.hasListener = true
    · simp only [listens, if_true]
      cases saved : g.toDocument with
      | error e => exact .inl ⟨e, .inr rfl, rfl⟩
      | ok document => exact .inr ⟨a, _, rfl, rfl⟩
    · simp only [listens]
      exact .inr ⟨a, _, rfl, rfl⟩

theorem request_eq_edit (s : Session ι) (r : Request ι) :
    ∃ (α : Type) (edited : Graph ι × Logged α) (regenerate : Bool),
      (s.request r).1 = (s.edit edited regenerate).1 := by
  cases r with
  | add kind position data => exact ⟨_, s.graph.addNode kind position data none, true, rfl⟩
  | remove id => exact ⟨_, s.graph.removeNode id, true, rfl⟩
  | clone id => exact ⟨_, s.graph.cloneNode id Graph.cloneOffset, true, rfl⟩
  | connect d => exact ⟨_, s.graph.connect d, true, rfl⟩
  | move | disconnect | load => exact ⟨_, _, _, rfl⟩

theorem edit_refused {α : Type} {s : Session ι} {edited : Graph ι × Logged α} {regenerate : Bool}
    {e : Error} (refused : (s.edit edited regenerate).2 = .error e) :
    (s.edit edited regenerate).1 =
        { s with graph := edited.1, log := s.log ++ edited.2.events } ∧
      (edited.2.outcome = .error e ∨ edited.1.toDocument = .error e) := by
  rcases s.edit_cases edited regenerate with ⟨cause, failed, same⟩ | ⟨a, changes, _, same⟩
  · rw [same] at refused ⊢
    cases refused
    exact ⟨rfl, failed⟩
  · rw [same] at refused
    cases refused

omit [BEq ι] [NodeId ι] in
theorem refused_of_report {α : Type} {result : Session ι × Except Error α} {e : Error}
    (refused : (request.report result).2 = .error e) : result.2 = .error e := by
  obtain ⟨s, outcome⟩ := result
  cases outcome with
  | ok a => cases refused
  | error cause =>
    cases refused
    rfl

end Edits

open ShaderFlow.Graph

variable {s : Session Int}

theorem error_report {α : Type} {result : Graph Int × Logged α} {e : Error}
    (failed : result.2.outcome = .error e) : (perform.report result).2 = .error e := by
  rw [perform.report, failed]
  rfl

/-- A refused request takes over the edited graph alone. It is refused because the edit is, or
because the edited graph has no document. -/
theorem request_refused {r : Request Int} {e : Error} (refused : (s.request r).2 = .error e) :
    (∃ log, (s.request r).1 = { s with graph := (s.graph.perform r.toEdit).1, log }) ∧
      ((s.graph.perform r.toEdit).2 = .error e ∨
        (s.graph.perform r.toEdit).1.toDocument = .error e) := by
  have of_edit : ∀ {α : Type} (edited : Graph Int × Logged α) (regenerate : Bool),
      (request.report (s.edit edited regenerate)).2 = .error e →
      (∃ log, (request.report (s.edit edited regenerate)).1 =
          { s with graph := (perform.report edited).1, log }) ∧
        ((perform.report edited).2 = .error e ∨
          (perform.report edited).1.toDocument = .error e) := by
    intro α edited regenerate refused
    obtain ⟨same, failed⟩ := edit_refused (refused_of_report refused)
    exact ⟨⟨_, same⟩, failed.imp_left error_report⟩
  cases r <;> exact of_edit _ _ refused

/-- A refused request leaves all of the session alone but the graph and the log. The graph stays as
it was, unless an id cannot be written that the new graph holds or that the change is about. -/
def Withholds (s : Session Int) (r : Request Int) (e : Error) : Prop :=
  ∃ graph log, (s.request r).1 = { s with graph, log } ∧
    (graph = s.graph ∨ e = unwritable ∧
      ∃ id, ¬ Writable id ∧ (id ∈ graph.ids ∨ id ∈ s.graph.ids ∧ r.toEdit.Spells s.graph id))

theorem withholds_of_refused (sound : s.graph.Sound) {r : Request Int} {e : Error}
    (refused : (s.request r).2 = .error e) : s.Withholds r e := by
  obtain ⟨⟨log, same⟩, failed⟩ := request_refused refused
  refine ⟨_, log, same, ?_⟩
  rcases failed with failed | unsaved
  · refine (perform_leaves failed).imp_right fun ⟨known, id, spelled, has, long⟩ => ?_
    exact ⟨known, id, long, has.symm.imp_right fun before => ⟨before, spelled⟩⟩
  · have changed : (s.graph.perform r.toEdit).1.Sound := sound_run sound [r.toEdit]
    rw [toDocument_eq changed] at unsaved
    obtain ⟨known, id, member, long⟩ := eq_unwritable_of_writing unsaved
    exact .inr ⟨known, id, long, .inl ((mem_ascending_ids _ id).mp member)⟩

end Session

namespace Graph

/-- In every graph that edits made, each node is found under its id and its kind takes its data for
valid, each link joins sockets of one type, and no link is there twice. New ids were free. A refused
edit leaves the graph as it was, unless an id that it has to write down after the change has too
many digits; a refused request to a session of the graph reports and starts nothing either.
Listeners take what is reported: a request cannot be refused because one of them fails. -/
theorem run_invariant_and_atomic (registry : Registry) (edits : List Edit) {g : Graph Int}
    (reached : run { registry } edits = g) :
    ((∀ n ∈ g.nodes, g.find? n.id = some n ∧ g.Accepts n) ∧ (∀ l ∈ g.links, g.Joins l) ∧
        g.links.Nodup) ∧
      ((∀ kind position data wanted n,
          (g.addNode kind position data wanted).2.outcome = .ok n → n.id ∉ g.ids) ∧
        ∀ id offset n, (g.cloneNode id offset).2.outcome = .ok n → n.id ∉ g.ids) ∧
      (∀ edit e, (g.perform edit).2 = .error e → g.Leaves (edit.Spells g) (g.perform edit).1 e) ∧
      ∀ s : Session Int, s.graph = g → ∀ r e, (s.request r).2 = .error e → s.Withholds r e := by
  have sound : g.Sound := reached ▸ sound_run (.empty _ _) edits
  refine ⟨⟨fun n member => ⟨find?_eq_some sound member, sound.accepts n member⟩, sound.joins,
    sound.linksNodup⟩, ⟨fun _ _ _ _ _ => addNode_fresh, fun _ _ _ => cloneNode_fresh⟩,
    fun _ _ => perform_leaves, ?_⟩
  rintro s rfl r e refused
  exact Session.withholds_of_refused sound refused

theorem exists_error {α : Type} {outcome : Except Error α} (failed : outcome.isOk = false) :
    ∃ e, outcome = .error e := by
  cases outcome with
  | ok a => cases failed
  | error e => exact ⟨e, rfl⟩

/-- The second node stays though adding it is refused, and removing a node that is not there changes
nothing. -/
theorem run_invariant_and_atomic_longIds :
    (run {} (longIds.take 1)).nodes.length = 1 ∧ (run {} longIds).nodes.length = 2 ∧
      ((run {} (longIds.take 1)).perform
        (.add (.str "Canvas") (.arr [.int 0, .int 0]) (.obj []) none)).2 = .error unwritable ∧
      (∃ e, ((run {} longIds).perform (.remove 1)).2 = .error e) ∧
      ((run {} longIds).perform (.remove 1)).1 = run {} longIds := by
  have one : (run {} (longIds.take 1)).nodes.length = 1 := by decide +kernel
  have two : (run {} longIds).nodes.length = 2 := by decide +kernel
  obtain ⟨e, refused⟩ : ∃ e, ((run {} (longIds.take 1)).perform
      (.add (.str "Canvas") (.arr [.int 0, .int 0]) (.obj []) none)).2 = .error e :=
    exists_error (by decide +kernel)
  obtain ⟨e', missing⟩ : ∃ e, ((run {} longIds).perform (.remove 1)).2 = .error e :=
    exists_error (by decide +kernel)
  refine ⟨one, two, ?_, ⟨e', missing⟩, ?_⟩
  · obtain ⟨-, -, leaves, -⟩ :=
      run_invariant_and_atomic .builtin (longIds.take 1) (g := run {} (longIds.take 1)) rfl
    rcases leaves _ e refused with same | ⟨known, -⟩
    · have stays : (run {} longIds).nodes = (run {} (longIds.take 1)).nodes := congrArg nodes same
      rw [stays, one] at two
      cases two
    · rw [refused, known]
  · obtain ⟨-, -, leaves, -⟩ := run_invariant_and_atomic .builtin longIds (g := run {} longIds) rfl
    rcases leaves _ e' missing with same | ⟨-, id, spelled, -, long⟩
    · exact same
    · cases spelled
      exact absurd ((writable_iff 1).mpr (by decide +kernel)) long

end Graph

end ShaderFlow
