import ShaderFlow.Evaluation.Basic
import ShaderFlow.Graph.Edit
import ShaderFlow.Proofs.Outcome

set_option autoImplicit false

namespace ShaderFlow

section Steps

variable {ι : Type} [BEq ι] [NodeId ι]

namespace Evaluation

/-- What the rest of an evaluation comes to when nothing cancels it. -/
def rest (e : Evaluation ι) (target : Target) : Except Error String :=
  (do
    let last ← e.runNodes false e.pending
    let fragment ← last.finish
    fragment.generate target : Logged String).outcome

/-- The outputs of one node. -/
def produce (e : Evaluation ι) (id : ι) : Except Error Outputs := do
  let n ← e.graph.node id
  let k ← e.graph.kindOf n
  let inputs ← e.inputsFor id k
  let produced ← k.worker ⟨n.label, e.outputs.length⟩ (.obj n.data) inputs
  (NodeId.toJson id).checkWritable
  return e.bindShared id k produced

theorem outcome_runNode (e : Evaluation ι) (id : ι) :
    (e.runNode id).outcome =
      (e.produce id >>= fun made => .ok { e with outputs := e.outputs ++ [(id, made)] }) := by
  simp only [runNode, produce, Logged.outcome_bind, Logged.outcome_liftM, bind_assoc, pure_bind]
  rfl

/-- The nodes still to run play no part in running given nodes. -/
theorem runNodes_pending (e : Evaluation ι) (pending ids : List ι) :
    ({ e with pending }.runNodes false ids).outcome =
      ((e.runNodes false ids).outcome >>= fun last => .ok { last with pending }) := by
  induction ids generalizing e with
  | nil => rfl
  | cons id ids ih =>
    have same : { e with pending }.produce id = e.produce id := rfl
    simp only [runNodes, Bool.false_eq_true, if_false, Logged.outcome_bind, outcome_runNode, same,
      bind_assoc, Outcome.ok_bind]
    congr 1
    funext made
    exact ih { e with outputs := e.outputs ++ [(id, made)] }

/-- Another graph in which each node makes the same of the same outputs leads to the same outputs.
-/
theorem runNodes_graph {e : Evaluation ι} {g : Graph ι} {ids : List ι} (cancelled : Bool)
    (same : ∀ outputs, ∀ id ∈ ids,
      { e with graph := g, outputs }.produce id = { e with outputs }.produce id) :
    ({ e with graph := g }.runNodes cancelled ids).outcome =
      ((e.runNodes cancelled ids).outcome >>= fun last => .ok { last with graph := g }) := by
  induction ids generalizing e with
  | nil => rfl
  | cons id ids ih =>
    cases cancelled with
    | true => rfl
    | false =>
      have here : { e with graph := g }.produce id = e.produce id := same e.outputs id (by simp)
      simp only [runNodes, Bool.false_eq_true, if_false, Logged.outcome_bind, outcome_runNode, here,
        bind_assoc, Outcome.ok_bind]
      congr 1
      funext made
      refine ih (e := { e with outputs := e.outputs ++ [(id, made)] }) fun outputs id member => ?_
      exact same outputs id (by simp [member])

theorem rest_cons {e : Evaluation ι} {id : ι} {ids : List ι} (pending : e.pending = id :: ids)
    (target : Target) :
    e.rest target =
      ((e.runNode id).outcome >>= fun next => { next with pending := ids }.rest target) := by
  simp only [rest, pending, runNodes, Bool.false_eq_true, if_false, Logged.outcome_bind,
    Logged.outcome_liftM, runNodes_pending, bind_assoc, Outcome.ok_bind]
  rfl

theorem rest_nil {e : Evaluation ι} (pending : e.pending = []) (target : Target) :
    e.rest target = (e.finish >>= fun fragment => (fragment.generate target).outcome) := by
  simp only [rest, pending, runNodes, Logged.outcome_bind, Logged.outcome_liftM,
    Logged.outcome_pure, Outcome.ok_bind]

theorem step_cons {e : Evaluation ι} {id : ι} {ids : List ι} (pending : e.pending = id :: ids)
    (cancelled : Bool) :
    (e.step cancelled).outcome =
      if cancelled then .error .passCancelled
      else (e.runNode id).outcome >>= fun next => .ok (.running { next with pending := ids }) := by
  cases cancelled with
  | true =>
    simp only [step, pending]
    rfl
  | false =>
    simp only [step, pending, Bool.false_eq_true, if_false, Logged.outcome_bind]
    rfl

theorem step_nil {e : Evaluation ι} (pending : e.pending = []) (cancelled : Bool) :
    (e.step cancelled).outcome = (e.finish >>= fun fragment => .ok (.finished fragment)) := by
  simp only [step, pending, Logged.outcome_bind, Logged.outcome_liftM]
  rfl

theorem rest_of_running {e next : Evaluation ι} {cancelled : Bool}
    (stepped : (e.step cancelled).outcome = .ok (.running next)) (target : Target) :
    cancelled = false ∧ next.rest target = e.rest target ∧
      next.pending.length < e.pending.length := by
  cases pending : e.pending with
  | nil =>
    rw [step_nil pending] at stepped
    obtain ⟨fragment, _, same⟩ := Outcome.bind_eq_ok_iff.mp stepped
    cases same
  | cons id ids =>
    rw [step_cons pending] at stepped
    cases cancelled with
    | true => cases stepped
    | false =>
      obtain ⟨made, ran, same⟩ := Outcome.bind_eq_ok_iff.mp stepped
      cases same
      refine ⟨rfl, ?_, by simp⟩
      rw [rest_cons pending, ran, Outcome.ok_bind]

theorem rest_of_finished {e : Evaluation ι} {fragment : Fragment} {cancelled : Bool}
    (stepped : (e.step cancelled).outcome = .ok (.finished fragment)) (target : Target) :
    e.rest target = (fragment.generate target).outcome := by
  cases pending : e.pending with
  | nil =>
    rw [step_nil pending] at stepped
    obtain ⟨made, finished, same⟩ := Outcome.bind_eq_ok_iff.mp stepped
    cases same
    rw [rest_nil pending, finished, Outcome.ok_bind]
  | cons id ids =>
    rw [step_cons pending] at stepped
    cases cancelled with
    | true => cases stepped
    | false =>
      obtain ⟨made, _, same⟩ := Outcome.bind_eq_ok_iff.mp stepped
      cases same

theorem rest_of_error {e : Evaluation ι} {error : Error} {cancelled : Bool}
    (stepped : (e.step cancelled).outcome = .error error) (target : Target) :
    cancelled = true ∧ error = .passCancelled ∨ e.rest target = .error error := by
  cases pending : e.pending with
  | nil =>
    rw [step_nil pending] at stepped
    rcases Outcome.bind_eq_error_iff.mp stepped with failed | ⟨_, _, same⟩
    · exact .inr (by rw [rest_nil pending, failed, Outcome.error_bind])
    · cases same
  | cons id ids =>
    rw [step_cons pending] at stepped
    cases cancelled with
    | true =>
      cases stepped
      exact .inl ⟨rfl, rfl⟩
    | false =>
      rcases Outcome.bind_eq_error_iff.mp stepped with failed | ⟨_, _, same⟩
      · exact .inr (by rw [rest_cons pending, failed, Outcome.error_bind])
      · cases same

end Evaluation

/-- An evaluation runs from the start to its end. -/
theorem Graph.evaluate_eq_rest (g : Graph ι) (target : Target) (selector : Option Json) :
    (g.evaluate target selector false).outcome =
      (do
        let sink ← g.selectSink selector
        let e ← Evaluation.start g sink.id
        e.rest target) := by
  simp only [Graph.evaluate, Graph.build, Evaluation.rest, Logged.outcome_bind,
    Logged.outcome_liftM, bind_assoc]

end Steps

namespace Graph

/-- Two graphs that differ in the positions of their nodes alone. -/
structure Moved (f : Node Int → Node Int) (g g' : Graph Int) : Prop where
  id : ∀ n, (f n).id = n.id
  kind : ∀ n, (f n).kind = n.kind
  data : ∀ n, (f n).data = n.data
  nodes : g'.nodes = g.nodes.map f
  links : g'.links = g.links
  registry : g'.registry = g.registry

variable {f : Node Int → Node Int} {g g' : Graph Int}

theorem Moved.ids (moved : Moved f g g') : g'.ids = g.ids := by
  rw [Graph.ids, moved.nodes, List.map_map, Graph.ids]
  exact List.map_congr_left fun n _ => moved.id n

theorem Moved.node (moved : Moved f g g') (id : Int) :
    g'.node id = (g.node id >>= fun n => .ok (f n)) := by
  have found : g'.find? id = (g.find? id).map f := by
    have same : ((fun n : Node Int => n.id == id) ∘ f) = fun n => n.id == id := by
      funext n
      rw [Function.comp_apply, moved.id]
    rw [Graph.find?, moved.nodes, List.find?_map, same, Graph.find?]
  simp only [Graph.node, found]
  cases g.find? id with
  | some n => rfl
  | none => simp only [Option.map_none, bind_assoc]; rfl

theorem Moved.sinks (moved : Moved f g g') : g'.sinks = (g.sinks >>= fun ns => .ok (ns.map f)) := by
  have sorted : g'.nodes.mergeSort (fun a b => decide (a.id ≤ b.id)) =
      (g.nodes.mergeSort fun a b => decide (a.id ≤ b.id)).map f := by
    rw [moved.nodes]
    refine (List.map_mergeSort fun a _ b _ => ?_).symm
    rw [moved.id, moved.id]
  have same : ((fun n : Node Int => (g'.registry.find? n.kind).any (·.isSink)) ∘ f) =
      fun n => (g.registry.find? n.kind).any (·.isSink) := by
    funext n
    rw [Function.comp_apply, moved.kind, moved.registry]
  simp only [Graph.sinks, sortedNodes, NodeId.sortBy, Outcome.ok_bind, sorted]
  exact congrArg Except.ok ((List.filter_map).trans (by rw [same]))

theorem Moved.selectSink (moved : Moved f g g') (selector : Option Json) :
    g'.selectSink selector = (g.selectSink selector >>= fun n => .ok (f n)) := by
  simp only [Graph.selectSink, moved.sinks, bind_assoc, Outcome.ok_bind]
  congr 1
  funext sinks
  cases selector with
  | some v =>
    have same : ((fun n : Node Int => (NodeId.toJson n.id).alike v) ∘ f) =
        fun n => (NodeId.toJson n.id).alike v := by
      funext n
      rw [Function.comp_apply, moved.id]
    simp only [List.find?_map, same]
    cases sinks.find? fun n => (NodeId.toJson n.id).alike v with
    | some n => rfl
    | none => simp only [Option.map_none, bind_assoc]; rfl
  | none =>
    match sinks with
    | [] => rfl
    | [n] => rfl
    | m :: n :: rest =>
      have same : ((m :: n :: rest).map f).map (fun n => NodeId.toJson n.id) =
          (m :: n :: rest).map fun n => NodeId.toJson n.id := by
        rw [List.map_map]
        exact List.map_congr_left fun n _ => congrArg NodeId.toJson (moved.id n)
      simp only [List.map_cons, bind_assoc] at same ⊢
      simp only [same]
      rfl

theorem Moved.order (moved : Moved f g g') (sink : Option Int) : g'.order sink = g.order sink := by
  have full : g'.fullOrder = g.fullOrder := by
    simp only [fullOrder, moved.ids, moved.nodes, moved.links, List.foldlM_map]
  cases sink with
  | none => exact full
  | some sink => simp only [Graph.order, full, ancestors, moved.links]

end Graph

namespace Evaluation

open ShaderFlow.Graph

variable {f : Node Int → Node Int} {g' : Graph Int} {e : Evaluation Int}

theorem produce_moved (moved : Moved f e.graph g') (id : Int) :
    { e with graph := g' }.produce id = e.produce id := by
  have inputs : ∀ k, { e with graph := g' }.inputsFor id k = e.inputsFor id k := by
    intro k
    simp only [inputsFor, inputsOf, moved.links]
    rfl
  have shared : ∀ k produced, { e with graph := g' }.bindShared id k produced =
      e.bindShared id k produced := by
    have fanOut : ∀ output, { e with graph := g' }.fanOut id output = e.fanOut id output := by
      intro output
      simp only [fanOut, moved.links]
    intro k produced
    simp only [bindShared, fanOut]
  have kind : ∀ n, g'.kindOf (f n) = e.graph.kindOf n := by
    intro n
    rw [kindOf, moved.kind, moved.registry, kindOf]
  have label : ∀ n, (f n).label = n.label := by
    intro n
    rw [Node.label, moved.id, Node.label]
  simp only [produce, moved.node, bind_assoc, Outcome.ok_bind, inputs, shared, kind, label,
    moved.data]

theorem runNodes_moved (moved : Moved f e.graph g') (ids : List Int) :
    ({ e with graph := g' }.runNodes false ids).outcome =
      ((e.runNodes false ids).outcome >>= fun last => .ok { last with graph := g' }) :=
  runNodes_graph false fun outputs id _ => produce_moved (e := { e with outputs }) moved id

theorem rest_moved (moved : Moved f e.graph g') (target : Target) :
    { e with graph := g' }.rest target = e.rest target := by
  simp only [rest, Logged.outcome_bind, Logged.outcome_liftM, runNodes_moved moved, bind_assoc,
    Outcome.ok_bind]
  rfl

end Evaluation

namespace Graph

variable {f : Node Int → Node Int} {g g' : Graph Int}

/-- Where the nodes stand does not matter to what a graph evaluates to. -/
theorem Moved.outcome_evaluate (moved : Moved f g g') (target : Target) (selector : Option Json) :
    (g'.evaluate target selector false).outcome = (g.evaluate target selector false).outcome := by
  simp only [evaluate_eq_rest, moved.selectSink, bind_assoc, Outcome.ok_bind, moved.id]
  congr 1
  funext sink
  simp only [Evaluation.start, moved.order, bind_assoc, pure_bind]
  congr 1
  funext order
  exact Evaluation.rest_moved
    (e := { graph := g, sink := sink.id, live := order, pending := order }) moved target

/-- Moving a node leaves everything else as it is. -/
theorem moved_of_moveNode {id : Int} {position : Json} (success : g.moveNode id position = .ok g') :
    ∃ f, Moved f g g' := by
  obtain ⟨place, _, success⟩ := Outcome.bind_eq_ok_iff.mp success
  obtain ⟨n, _, success⟩ := Outcome.bind_eq_ok_iff.mp success
  cases success
  refine ⟨fun n => if n.id == id then { n with position := place } else n, ?_, ?_, ?_, rfl,
    rfl, rfl⟩
  all_goals
    intro n
    split <;> rfl

end Graph

end ShaderFlow
