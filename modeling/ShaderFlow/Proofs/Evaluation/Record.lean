import ShaderFlow.Proofs.Evaluation.Greedy
import ShaderFlow.Proofs.Evaluation.Rest
import ShaderFlow.Proofs.Evaluation.Run

set_option autoImplicit false

namespace ShaderFlow

namespace Evaluation

variable {e last : Evaluation Int} {id : Int} {n : Node Int} {k : Kind} {inputs : Inputs}
  {produced : Outputs}

/-- A node ran: the outputs that stand for it are those of its worker on the inputs that stand
there. -/
structure Recorded (e : Evaluation Int) (id : Int) (n : Node Int) (k : Kind) (inputs : Inputs)
    (produced : Outputs) : Prop where
  member : n ∈ e.graph.nodes
  same : n.id = id
  kind : e.graph.registry.find? n.kind = some k
  collected : e.inputsFor id k = .ok inputs
  worked : ∃ turn, k.worker ⟨n.label, turn⟩ (.obj n.data) inputs = .ok produced
  outputs : e.outputs.lookup id = some (e.bindShared id k produced)

/-- The fragment on an output of a node. -/
def output? (e : Evaluation Int) (id : Int) (key : String) : Option Fragment :=
  ((e.outputs.lookup id).getD []).lookup key

theorem arriving_eq_ok {l : Link Int} {f : Fragment} :
    e.arriving l = .ok f ↔ e.output? l.source l.output = some f := by
  unfold arriving output?
  cases List.lookup l.output ((e.outputs.lookup l.source).getD []) <;> simp

theorem Recorded.output?_eq (recorded : Recorded e id n k inputs produced) (key : String) :
    e.output? id key = (e.bindShared id k produced).lookup key := by
  rw [output?, recorded.outputs, Option.getD_some]

section Growth

theorem arriving_append {l : Link Int} {f : Fragment} (brought : e.arriving l = .ok f)
    (more : List (Int × Outputs)) : { e with outputs := e.outputs ++ more }.arriving l = .ok f := by
  unfold arriving at brought ⊢
  cases found : e.outputs.lookup l.source with
  | none => simp [found] at brought
  | some made =>
    simp only [lookup_append_of_mem found more]
    simpa [found] using brought

theorem inputsFor_append (collected : e.inputsFor id k = .ok inputs)
    (more : List (Int × Outputs)) :
    { e with outputs := e.outputs ++ more }.inputsFor id k = .ok inputs := by
  refine Outcome.mapM_eq_ok_iff.mpr ((Outcome.mapM_eq_ok_iff.mp collected).imp ?_)
  intro s entry made
  obtain ⟨fs, brought, same⟩ := Outcome.bind_eq_ok_iff.mp made
  refine Outcome.bind_eq_ok_iff.mpr ⟨fs, ?_, same⟩
  exact Outcome.mapM_eq_ok_iff.mpr
    ((Outcome.mapM_eq_ok_iff.mp brought).imp fun l f here => arriving_append here more)

/-- What later nodes leave behind does not touch a record. -/
theorem Recorded.append (recorded : Recorded e id n k inputs produced)
    (more : List (Int × Outputs)) :
    Recorded { e with outputs := e.outputs ++ more } id n k inputs produced where
  member := recorded.member
  same := recorded.same
  kind := recorded.kind
  collected := inputsFor_append recorded.collected more
  worked := recorded.worked
  outputs := lookup_append_of_mem recorded.outputs more

end Growth

/-- A node that ran is on record, and nothing else changed. -/
theorem recorded_of_runNode {next : Evaluation Int} (ran : (e.runNode id).outcome = .ok next)
    (new : id ∉ e.outputs.map Prod.fst) : ∃ n k inputs produced,
      next = { e with outputs := e.outputs ++ [(id, e.bindShared id k produced)] } ∧
        Recorded next id n k inputs produced := by
  rw [outcome_runNode, Outcome.bind_eq_ok_iff] at ran
  obtain ⟨made, ran, same⟩ := ran
  cases same
  obtain ⟨n, present, ran⟩ := Outcome.bind_eq_ok_iff.mp ran
  obtain ⟨k, kind, ran⟩ := Outcome.bind_eq_ok_iff.mp ran
  obtain ⟨inputs, collected, ran⟩ := Outcome.bind_eq_ok_iff.mp ran
  obtain ⟨produced, worked, ran⟩ := Outcome.bind_eq_ok_iff.mp ran
  obtain ⟨_, _, same⟩ := Outcome.bind_eq_ok_iff.mp ran
  cases same
  obtain ⟨member, named⟩ := Graph.node_eq_ok present
  obtain ⟨_, same, found, -⟩ := Graph.get_eq_ok kind
  cases same
  exact ⟨n, k, inputs, produced, rfl, member, named, found, inputsFor_append collected _,
    ⟨_, worked⟩, lookup_append_self new _⟩

theorem recorded_of_runNodes {ids : List Int} (ran : (e.runNodes false ids).outcome = .ok last)
    (nodup : (e.outputs.map Prod.fst ++ ids).Nodup) :
    ∃ more, last = { e with outputs := e.outputs ++ more } ∧ more.map Prod.fst = ids ∧
      ∀ id ∈ ids, ∃ n k inputs produced, Recorded last id n k inputs produced := by
  induction ids generalizing e with
  | nil =>
    cases ran
    exact ⟨[], by simp, rfl, by simp⟩
  | cons id ids ih =>
    simp only [runNodes, Bool.false_eq_true, if_false, Logged.outcome_bind] at ran
    obtain ⟨next, here, there⟩ := Outcome.bind_eq_ok_iff.mp ran
    have new : id ∉ e.outputs.map Prod.fst := fun again =>
      List.disjoint_of_nodup_append nodup again List.mem_cons_self
    obtain ⟨n, k, inputs, produced, rfl, recorded⟩ := recorded_of_runNode here new
    obtain ⟨more, rfl, names, each⟩ := ih there (by simpa using nodup)
    refine ⟨(id, e.bindShared id k produced) :: more, by simp, by simp [names], ?_⟩
    intro other member
    rcases List.mem_cons.mp member with rfl | member
    · exact ⟨n, k, inputs, produced, recorded.append more⟩
    · exact each other member

section Naming

/-- The fragment on an output once its node ran: named if several links read it. -/
def named (e : Evaluation Int) (id : Int) (s : Socket) (f : Fragment) : Fragment :=
  if e.fanOut id s.key > 1 then f.bind (Label.outputName id s.key) s.type.shaderType else f

/-- Each declared output is named on its own. -/
theorem lookup_bindShared (e : Evaluation Int) (id : Int) {k : Kind}
    (keys : (k.outputs.map Socket.key).Nodup) (produced : Outputs) :
    (∀ s ∈ k.outputs, (e.bindShared id k produced).lookup s.key =
      (produced.lookup s.key).map (e.named id s)) ∧
    ∀ key ∉ k.outputs.map Socket.key,
      (e.bindShared id k produced).lookup key = produced.lookup key := by
  have step : ∀ (acc : Outputs) (s : Socket) (key : String),
      (if e.fanOut id s.key > 1 then updateOutput acc s.key
          (·.bind s!"out_{(NodeId.toJson id).bare}_{s.key}" s.type.shaderType)
        else acc).lookup key =
        if key = s.key then (acc.lookup key).map (e.named id s) else acc.lookup key := by
    intro acc s key
    by_cases several : e.fanOut id s.key > 1
    · have naming : e.named id s = (·.bind (Label.outputName id s.key) s.type.shaderType) := by
        funext f
        rw [named, if_pos several]
      rw [if_pos several, lookup_updateOutput, shared_name_eq, naming]
    · have naming : e.named id s = fun f => f := by
        funext f
        rw [named, if_neg several]
      rw [if_neg several, naming]
      simp
  unfold bindShared
  generalize k.outputs = rest at keys ⊢
  induction rest generalizing produced with
  | nil => simp
  | cons s rest ih =>
    obtain ⟨other, keys⟩ := List.nodup_cons.mp keys
    obtain ⟨declared, undeclared⟩ := ih (if e.fanOut id s.key > 1 then
      updateOutput produced s.key
        (·.bind s!"out_{(NodeId.toJson id).bare}_{s.key}" s.type.shaderType) else produced) keys
    rw [List.foldl_cons]
    constructor
    · intro t member
      rcases List.mem_cons.mp member with rfl | member
      · rw [undeclared t.key other, step, if_pos rfl]
      · have apart : t.key ≠ s.key := fun same => other (List.mem_map.mpr ⟨t, member, same⟩)
        rw [declared t member, step, if_neg apart]
    · intro key missing
      obtain ⟨apart, missing⟩ := not_or.mp (mt List.mem_cons.mpr missing)
      rw [undeclared key missing, step, if_neg apart]

end Naming

/-- What stands first on an input is what the first link into it brought. -/
theorem first?_of_inputsFor (sound : e.graph.Sound) (hosts : e.graph.Hosts id k)
    (collected : e.inputsFor id k = .ok inputs) (input : String) :
    Inputs.first? inputs input =
      (e.graph.firstLink? id input).bind fun l => e.output? l.source l.output := by
  have related := forall₂_inputsFor collected
  rcases lookup_of_forall₂ (P := fun key fs => (e.graph.linksInto id key).mapM e.arriving = .ok fs)
    related input with ⟨undeclared, missing⟩ | ⟨fs, found, brought⟩
  · rw [Inputs.first?, missing, Graph.firstLink?, linksInto_eq_nil sound hosts undeclared]
    rfl
  · rw [Inputs.first?, found, Graph.firstLink?]
    generalize e.graph.linksInto id input = links at brought
    cases Outcome.mapM_eq_ok_iff.mp brought with
    | nil => rfl
    | cons here _ => exact (arriving_eq_ok.mp here).symm

theorem Recorded.hosts (recorded : Recorded e id n k inputs produced) : e.graph.Hosts id k :=
  ⟨n, recorded.member, recorded.same, recorded.kind⟩

end Evaluation

namespace Graph

variable {g : Graph Int}

/-- The record of a whole evaluation: all nodes that take part ran, and the sink's result is given.
-/
structure Evaluated (g : Graph Int) (sink : Int) (f : Fragment) (e : Evaluation Int) : Prop where
  graph_eq : e.graph = g
  nodup : e.live.Nodup
  live : ∀ id, id ∈ e.live ↔ g.LeadsTo id sink
  recorded : ∀ id ∈ e.live, ∃ n k inputs produced, e.Recorded id n k inputs produced
  finished : e.output? sink Kind.resultKey = some f

/-- What holds of a node when it holds of all that feed it holds of every node that takes part. -/
theorem Evaluated.induction {sink : Int} {f : Fragment} {e : Evaluation Int} {P : Int → Prop}
    (evaluated : g.Evaluated sink f e) (acyclic : g.Acyclic)
    (step : ∀ id ∈ e.live, (∀ l ∈ g.links, l.target = id → P l.source) → P id) :
    ∀ id ∈ e.live, P id := by
  intro id
  induction id using acyclic.induction with
  | _ id ih =>
    intro member
    refine step id member fun l inside target => ?_
    have feeds : g.Feeds l.source id := ⟨l, inside, rfl, target⟩
    exact ih l.source feeds ((evaluated.live _).mpr (.head feeds ((evaluated.live id).mp member)))

/-- A build that succeeds can be read back. -/
theorem exists_evaluated (sound : g.Sound) (acyclic : g.Acyclic) {selector : Option Json}
    {n : Node Int} (selected : g.selectSink selector = .ok n) (present : n.id ∈ g.ids)
    {f : Fragment} (built : (g.build selector false).outcome = .ok f) :
    ∃ e, g.Evaluated n.id f e := by
  obtain ⟨order, made, nodup, -, live⟩ := exists_greedy_order sound acyclic present
  have started : Evaluation.start g n.id =
      .ok { graph := g, sink := n.id, live := order, pending := order } := by
    rw [Evaluation.start, made, Outcome.ok_bind]
    rfl
  simp only [build, Logged.outcome_bind, Logged.outcome_liftM, selected, started,
    Outcome.ok_bind] at built
  obtain ⟨last, ran, finished⟩ := Outcome.bind_eq_ok_iff.mp built
  obtain ⟨more, rfl, names, recorded⟩ := Evaluation.recorded_of_runNodes ran (by simpa using nodup)
  refine ⟨{ graph := g, sink := n.id, live := order, pending := order, outputs := more },
    rfl, nodup, live, recorded, ?_⟩
  unfold Evaluation.finish at finished
  split at finished
  · rename_i found
    cases finished
    exact found
  · cases finished

end Graph

end ShaderFlow
