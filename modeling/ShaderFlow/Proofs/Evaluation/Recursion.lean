import ShaderFlow.Proofs.Evaluation.LivePart
import ShaderFlow.Proofs.Evaluation.Record
import ShaderFlow.Proofs.Evaluation.Totality

set_option autoImplicit false

/-
Running the nodes that a sink needs in order gives what plain recursion over the graph gives. Each
of them runs once, and what it reads is there when it runs. The one thing recursion does not do is
write down the ids on its way.
-/

namespace ShaderFlow

/-- What the worker of a kind makes depends on the node and its inputs alone. -/
def Kind.IsPure (k : Kind) : Prop :=
  ∀ label turn turn' data inputs,
    k.worker ⟨label, turn⟩ data inputs = k.worker ⟨label, turn'⟩ data inputs

def Registry.IsPure (r : Registry) : Prop := ∀ k ∈ r.kinds, k.IsPure

theorem isPure_builtin : Registry.builtin.IsPure := by
  intro k member label turn turn' data inputs
  simp only [Registry.builtin, Registry.builtinKinds, List.mem_cons, List.not_mem_nil, or_false]
    at member
  rcases member with rfl | rfl | rfl | rfl | rfl | rfl | rfl | rfl | rfl | rfl | rfl | rfl <;> rfl

namespace Graph

variable {g : Graph Int} {sink id : Int}

section Sharing

/-- A link that reads an output for the sake of a sink. -/
def ReadsFor (g : Graph Int) (sink id : Int) (output : String) (l : Link Int) : Prop :=
  l ∈ g.links ∧ l.source = id ∧ l.output = output ∧ g.LeadsTo l.target sink

/-- More than one link reads an output for the sake of a sink. -/
def Shares (g : Graph Int) (sink id : Int) (output : String) : Prop :=
  ∃ l l', l ≠ l' ∧ g.ReadsFor sink id output l ∧ g.ReadsFor sink id output l'

open Classical in
/-- What stands on an output: a declared output that is shared is bound to a name of its own. -/
noncomputable def shareOutput (g : Graph Int) (sink id : Int) (k : Kind)
    (entry : String × Fragment) : String × Fragment :=
  match k.output? entry.1 with
  | none => entry
  | some s =>
    if g.Shares sink id entry.1 then
      (entry.1, entry.2.bind (Label.outputName id entry.1) s.type.shaderType)
    else entry

end Sharing

section Value

/-- What a link brings, when the outputs of each node are given. -/
def brought (value : Int → Option Outputs) (l : Link Int) : Option Fragment := do
  (← value l.source).lookup l.output

theorem feeds_of_mem_linksInto {input : String} {l : Link Int} (member : l ∈ g.linksInto id input) :
    g.Feeds l.source id := by
  obtain ⟨inside, target, -⟩ := mem_linksInto.mp member
  exact ⟨l, inside, rfl, target⟩

/-- The outputs of a node by plain recursion: its worker on what the links into each declared input
bring, in the order of the links. There are none if a worker fails or an output that a link reads is
not made. -/
noncomputable def value (g : Graph Int) (acyclic : g.Acyclic) (sink : Int) : Int → Option Outputs :=
  acyclic.fix fun id value => do
    let n ← g.find? id
    let k ← g.registry.find? n.kind
    let inputs ← k.inputs.mapM fun s => do
      let fs ← (g.linksInto id s.key).attach.mapM fun l => do
        (← value l.1.source (feeds_of_mem_linksInto l.2)).lookup l.1.output
      return (s.key, fs)
    let made ← (k.worker ⟨n.label, 0⟩ (.obj n.data) inputs).toOption
    return made.map (g.shareOutput sink id k)

theorem exists_of_mapM {α β : Type} {f : α → Option β} {xs : List α} {ys : List β}
    (ran : xs.mapM f = some ys) {x : α} (member : x ∈ xs) : ∃ y, f x = some y := by
  induction xs generalizing ys with
  | nil => cases member
  | cons head rest ih =>
    rw [List.mapM_cons] at ran
    obtain ⟨y, here, ran⟩ := Option.bind_eq_some_iff.mp ran
    obtain ⟨ys, there, -⟩ := Option.bind_eq_some_iff.mp ran
    rcases List.mem_cons.mp member with rfl | member
    · exact ⟨y, here⟩
    · exact ih there member

theorem mapM_attach {α β : Type} (xs : List α) (f : α → Option β) :
    xs.attach.mapM (fun x => f x.1) = xs.mapM f := by
  conv_rhs => rw [← List.attach_map_subtype_val xs, List.mapM_map]
  rfl

/-- What the links into the declared inputs of a node bring. -/
def broughtTo (g : Graph Int) (value : Int → Option Outputs) (id : Int) (k : Kind) :
    Option Inputs :=
  k.inputs.mapM fun s => do
    return (s.key, ← (g.linksInto id s.key).mapM (brought value))

theorem value_eq (acyclic : g.Acyclic) (sink id : Int) :
    g.value acyclic sink id = (do
      let n ← g.find? id
      let k ← g.registry.find? n.kind
      let inputs ← g.broughtTo (g.value acyclic sink) id k
      let made ← (k.worker ⟨n.label, 0⟩ (.obj n.data) inputs).toOption
      return made.map (g.shareOutput sink id k)) := by
  conv_lhs => unfold value
  rw [WellFounded.fix_eq]
  unfold broughtTo
  congr 1
  funext n
  congr 1
  funext k
  congr 2
  funext s
  congr 1
  exact mapM_attach _ (brought (g.value acyclic sink))

/-- A node has outputs only if all nodes that feed it do. -/
theorem value_isSome_of_feeds (sound : g.Sound) {acyclic : g.Acyclic} {a : Int}
    (feeds : g.Feeds a id) (solved : (g.value acyclic sink id).isSome = true) :
    (g.value acyclic sink a).isSome = true := by
  obtain ⟨l, member, rfl, rfl⟩ := feeds
  obtain ⟨_, k, _, i, -, hosts, -, declared, -⟩ := sound.joins l member
  obtain ⟨n, inside, same, kind⟩ := hosts
  have key : i.key = l.input := by simpa using List.find?_some declared
  obtain ⟨made, solved⟩ := Option.isSome_iff_exists.mp solved
  rw [value_eq, ← same, find?_eq_some sound inside] at solved
  obtain ⟨_, found, solved⟩ := Option.bind_eq_some_iff.mp solved
  cases found
  obtain ⟨k', kind', solved⟩ := Option.bind_eq_some_iff.mp solved
  obtain rfl : k = k' := by simpa [kind] using kind'
  obtain ⟨inputs, collected, -⟩ := Option.bind_eq_some_iff.mp solved
  obtain ⟨entry, given⟩ := exists_of_mapM collected (List.mem_of_find?_eq_some declared)
  obtain ⟨fs, arrived, -⟩ := Option.bind_eq_some_iff.mp given
  rw [same] at arrived
  obtain ⟨f, here⟩ := exists_of_mapM arrived (mem_linksInto.mpr ⟨member, rfl, key.symm⟩)
  obtain ⟨outputs, found, -⟩ := Option.bind_eq_some_iff.mp here
  exact Option.isSome_iff_exists.mpr ⟨outputs, found⟩

end Value

end Graph

namespace Evaluation

variable {g : Graph Int} {acyclic : g.Acyclic} {e next last : Evaluation Int} {id : Int} {k : Kind}

section Sharing

theorem bind_bind (f : Fragment) (name type type' : String) :
    (f.bind name type).bind name type' = f.bind name type := by
  by_cases plain : (f.value.isAbsent || f.value.isInline) = true
  · simp only [Fragment.bind, plain, if_true]
  · simp only [Fragment.bind, plain]
    rfl

/-- A list without repetitions has more than one item exactly if it has two different ones. -/
theorem one_lt_length_iff {α : Type} {xs : List α} (nodup : xs.Nodup) :
    1 < xs.length ↔ ∃ a b, a ≠ b ∧ a ∈ xs ∧ b ∈ xs := by
  rcases xs with _ | ⟨a, _ | ⟨b, rest⟩⟩
  · simp
  · simp
  · have apart : a ≠ b := by
      rintro rfl
      simp at nodup
    exact ⟨fun _ => ⟨a, b, apart, by simp, by simp⟩, fun _ => by simp⟩

theorem fanOut_gt_one_iff (sound : e.graph.Sound)
    (live : ∀ id, id ∈ e.live ↔ e.graph.LeadsTo id e.sink) (output : String) :
    e.fanOut id output > 1 ↔ e.graph.Shares e.sink id output := by
  have reads : ∀ l, l ∈ e.graph.links.filter (fun l => l.source == id && l.output == output &&
      e.live.contains l.target) ↔ e.graph.ReadsFor e.sink id output l := by
    intro l
    simp [Graph.ReadsFor, live, and_assoc]
  rw [fanOut, List.countP_eq_length_filter, gt_iff_lt,
    one_lt_length_iff (sound.linksNodup.filter _)]
  simp only [reads, Graph.Shares]

theorem bindShared_eq_map (sound : e.graph.Sound)
    (live : ∀ id, id ∈ e.live ↔ e.graph.LeadsTo id e.sink) (produced : Outputs) :
    e.bindShared id k produced = produced.map (e.graph.shareOutput e.sink id k) := by
  classical
  unfold bindShared Graph.shareOutput Kind.output?
  simp only [fanOut_gt_one_iff sound live, shared_name_eq]
  -- Of several outputs under one key the first gives the name, and the others find it given.
  generalize k.outputs = sockets
  induction sockets generalizing produced with
  | nil => simp
  | cons s rest ih =>
    rw [List.foldl_cons, ih]
    by_cases shared : e.graph.Shares e.sink id s.key
    · rw [if_pos shared, updateOutput, List.map_map]
      refine List.map_congr_left fun entry _ => ?_
      obtain ⟨key, f⟩ := entry
      by_cases here : s.key = key
      · subst here
        cases again : rest.find? (·.key == s.key) <;> simp [shared, again, bind_bind]
      · have other : (s.key == key) = false := by simpa using here
        have other' : (key == s.key) = false := by simpa using Ne.symm here
        simp [other, other', Function.comp]
    · rw [if_neg shared]
      refine List.map_congr_left fun entry _ => ?_
      obtain ⟨key, f⟩ := entry
      by_cases here : s.key = key
      · subst here
        cases rest.find? (·.key == s.key) <;> simp [shared]
      · have other : (s.key == key) = false := by simpa using here
        simp [other]

end Sharing

/-- The state of a run: the nodes that take part lead to the sink, and those that ran have the
outputs that recursion gives. -/
structure Follows (g : Graph Int) (acyclic : g.Acyclic) (e : Evaluation Int) : Prop where
  graph_eq : e.graph = g
  live : ∀ id, id ∈ e.live ↔ g.LeadsTo id e.sink
  values : ∀ id ∈ e.outputs.map Prod.fst, ∃ made, e.outputs.lookup id = some made ∧
    g.value acyclic e.sink id = some made

namespace Follows

theorem append (inv : Follows g acyclic e) {made : Outputs} (new : id ∉ e.outputs.map Prod.fst)
    (solved : g.value acyclic e.sink id = some made) :
    Follows g acyclic { e with outputs := e.outputs ++ [(id, made)] } where
  graph_eq := inv.graph_eq
  live := inv.live
  values := by
    intro other member
    rw [List.map_append, List.mem_append] at member
    rcases member with ran | last
    · obtain ⟨made', found, solved'⟩ := inv.values other ran
      exact ⟨made', lookup_append_of_mem found _, solved'⟩
    · obtain rfl : other = id := by simpa using last
      exact ⟨made, lookup_append_self new made, solved⟩

/-- A node whose feeding nodes ran receives what recursion gives it. -/
theorem toOption_inputsFor (inv : Follows g acyclic e)
    (fed : ∀ a, g.Feeds a id → a ∈ e.outputs.map Prod.fst) (k : Kind) :
    (e.inputsFor id k).toOption = g.broughtTo (g.value acyclic e.sink) id k := by
  refine Outcome.toOption_mapM fun s _ => ?_
  rw [Graph.lookup_inputsOf, inv.graph_eq, Outcome.toOption_bind]
  have arrived : ((g.linksInto id s.key).mapM e.arriving).toOption =
      (g.linksInto id s.key).mapM (Graph.brought (g.value acyclic e.sink)) := by
    refine Outcome.toOption_mapM fun l member => ?_
    obtain ⟨made, found, solved⟩ :=
      inv.values l.source (fed _ (Graph.feeds_of_mem_linksInto member))
    simp only [Evaluation.arriving, found, Graph.brought, solved, Option.getD_some]
    cases given : made.lookup l.output <;> simp [given] <;> rfl
  rw [arrived]
  rfl

/-- Running a node gives its value by recursion and writes down its id. -/
theorem runNode_eq_ok_iff (inv : Follows g acyclic e) (sound : g.Sound) (isPure : g.registry.IsPure)
    (present : id ∈ g.ids) (fed : ∀ a, g.Feeds a id → a ∈ e.outputs.map Prod.fst) :
    (e.runNode id).outcome = .ok next ↔ ∃ made, g.value acyclic e.sink id = some made ∧
      Graph.Writable id ∧ next = { e with outputs := e.outputs ++ [(id, made)] } := by
  obtain ⟨n, member, rfl⟩ := List.mem_map.mp present
  obtain ⟨k, found, -⟩ := sound.accepts n member
  have collected := inv.toOption_inputsFor fed k
  have same : ∀ turn inputs, k.worker ⟨n.label, turn⟩ (.obj n.data) inputs =
      k.worker ⟨n.label, 0⟩ (.obj n.data) inputs := fun turn inputs =>
    isPure k (List.mem_of_find?_eq_some found) n.label turn 0 (.obj n.data) inputs
  have solved : g.value acyclic e.sink n.id = (do
      let inputs ← (e.inputsFor n.id k).toOption
      let made ← (k.worker ⟨n.label, 0⟩ (.obj n.data) inputs).toOption
      return made.map (g.shareOutput e.sink n.id k)) := by
    rw [Graph.value_eq, Graph.find?_eq_some sound member, collected]
    simp only [Option.bind_eq_bind, Option.bind_some, found]
  obtain rfl := inv.graph_eq
  rw [outcome_runNode, produce, Graph.node_eq_ok_of_mem sound member, Outcome.ok_bind,
    Graph.kindOf_eq_ok found, Outcome.ok_bind, solved]
  simp only [same, bindShared_eq_map sound inv.live]
  cases e.inputsFor n.id k with
  | error reason => simp [Except.toOption]
  | ok inputs =>
    cases worked : k.worker ⟨n.label, 0⟩ (.obj n.data) inputs with
    | error reason => simp [Except.toOption, worked]
    | ok made =>
      simp only [Outcome.ok_bind, worked, Except.toOption, Option.bind_eq_bind, Option.bind_some,
        Option.pure_def, Option.some.injEq, exists_eq_left']
      by_cases written : Graph.Writable n.id
      · rw [Graph.toJson_int, show (Json.int n.id).checkWritable = .ok () from written]
        simp [written, eq_comm]
      · rw [Graph.toJson_int, Graph.checkWritable_of_not written]
        simp [written]

variable {rest : List Int}

/-- The first of the nodes still to run is new, and all that feed it ran. -/
theorem new_and_fed (nodup : (e.outputs.map Prod.fst ++ id :: rest).Nodup)
    (ordered : g.Ordered (e.outputs.map Prod.fst ++ id :: rest)) :
    id ∉ e.outputs.map Prod.fst ∧ ∀ a, g.Feeds a id → a ∈ e.outputs.map Prod.fst := by
  refine ⟨fun again => List.disjoint_of_nodup_append nodup again List.mem_cons_self, ?_⟩
  simpa using ordered (e.outputs.map Prod.fst) id rest rfl

/-- A run that succeeds follows the recursion to its end. -/
theorem of_runNodes (inv : Follows g acyclic e) (sound : g.Sound) (isPure : g.registry.IsPure)
    (present : ∀ id ∈ rest, id ∈ g.ids) (nodup : (e.outputs.map Prod.fst ++ rest).Nodup)
    (ordered : g.Ordered (e.outputs.map Prod.fst ++ rest))
    (ran : (e.runNodes false rest).outcome = .ok last) :
    Follows g acyclic last ∧ last.sink = e.sink ∧
      last.outputs.map Prod.fst = e.outputs.map Prod.fst ++ rest ∧
      ∀ id ∈ rest, Graph.Writable id := by
  induction rest generalizing e with
  | nil =>
    cases ran
    exact ⟨inv, rfl, by simp, by simp⟩
  | cons id rest ih =>
    obtain ⟨new, fed⟩ := new_and_fed nodup ordered
    simp only [runNodes, Bool.false_eq_true, if_false, Logged.outcome_bind] at ran
    obtain ⟨next, here, there⟩ := Outcome.bind_eq_ok_iff.mp ran
    obtain ⟨made, solved, written, rfl⟩ :=
      (inv.runNode_eq_ok_iff sound isPure (present id List.mem_cons_self) fed).mp here
    obtain ⟨inv', sink, outputs, writtens⟩ := ih (inv.append new solved)
      (fun id member => present id (List.mem_cons_of_mem _ member)) (by simpa using nodup)
      (by simpa using ordered) there
    exact ⟨inv', sink, by simpa using outputs, List.forall_mem_cons.mpr ⟨written, writtens⟩⟩

/-- A run succeeds if recursion gives outputs to all its nodes and their ids can be written. -/
theorem exists_runNodes (inv : Follows g acyclic e) (sound : g.Sound) (isPure : g.registry.IsPure)
    (present : ∀ id ∈ rest, id ∈ g.ids) (nodup : (e.outputs.map Prod.fst ++ rest).Nodup)
    (ordered : g.Ordered (e.outputs.map Prod.fst ++ rest))
    (written : ∀ id ∈ rest, Graph.Writable id)
    (solved : ∀ id ∈ rest, (g.value acyclic e.sink id).isSome = true) :
    ∃ last, (e.runNodes false rest).outcome = .ok last := by
  induction rest generalizing e with
  | nil => exact ⟨e, rfl⟩
  | cons id rest ih =>
    obtain ⟨new, fed⟩ := new_and_fed nodup ordered
    obtain ⟨made, here⟩ := Option.isSome_iff_exists.mp (solved id List.mem_cons_self)
    have ran := (inv.runNode_eq_ok_iff sound isPure (present id List.mem_cons_self) fed).mpr
      ⟨made, here, written id List.mem_cons_self, rfl⟩
    obtain ⟨last, there⟩ := ih (inv.append new here)
      (fun id member => present id (List.mem_cons_of_mem _ member)) (by simpa using nodup)
      (by simpa using ordered) (fun id member => written id (List.mem_cons_of_mem _ member))
      (fun id member => solved id (List.mem_cons_of_mem _ member))
    refine ⟨last, ?_⟩
    simp only [runNodes, Bool.false_eq_true, if_false, Logged.outcome_bind]
    rw [ran, Outcome.ok_bind, there]

/-- Once the sink ran, its result is what recursion gives. -/
theorem finish_eq_ok_iff (inv : Follows g acyclic e) (ran : e.sink ∈ e.outputs.map Prod.fst)
    {f : Fragment} : e.finish = .ok f ↔
      (g.value acyclic e.sink e.sink).bind (·.lookup Kind.resultKey) = some f := by
  obtain ⟨made, found, solved⟩ := inv.values e.sink ran
  simp only [Evaluation.finish, found, solved, Option.getD_some, Option.bind_some]
  cases made.lookup Kind.resultKey <;> simp

end Follows

section Reports

/-- What is reported of nodes that ran. -/
def reports (g : Graph Int) (ids : List Int) : List Event :=
  ids.filterMap fun id => (g.find? id).map fun n => .evaluated (.int id) n.kind

/-- A node is reported once it ran, and nothing is reported of one that fails. -/
theorem runNode_reports (e : Evaluation Int) (id : Int) :
    (∃ next, (e.runNode id).outcome = .ok next ∧ next.graph = e.graph ∧
        (e.runNode id).events = reports e.graph [id]) ∨
      ∃ reason, e.runNode id = ⟨[], .error reason⟩ := by
  unfold runNode
  cases present : e.graph.node id with
  | error reason => exact .inr ⟨reason, rfl⟩
  | ok n =>
  rw [Logged.liftM_ok_bind]
  cases e.graph.kindOf n with
  | error reason => exact .inr ⟨reason, rfl⟩
  | ok k =>
  rw [Logged.liftM_ok_bind]
  cases e.inputsFor id k with
  | error reason => exact .inr ⟨reason, rfl⟩
  | ok inputs =>
  rw [Logged.liftM_ok_bind]
  cases k.worker ⟨n.label, e.outputs.length⟩ (.obj n.data) inputs with
  | error reason => exact .inr ⟨reason, rfl⟩
  | ok produced =>
  rw [Logged.liftM_ok_bind]
  cases (NodeId.toJson id).checkWritable with
  | error reason => exact .inr ⟨reason, rfl⟩
  | ok =>
    refine .inl ⟨_, rfl, rfl, ?_⟩
    rw [reports, List.filterMap_cons, Graph.find?_of_node present]
    rfl

/-- The nodes are reported in turn, up to the one that fails. -/
theorem runNodes_reports (e : Evaluation Int) (ids : List Int) :
    ∃ ran, ran <+: ids ∧ (e.runNodes false ids).events = reports e.graph ran ∧
      (∀ last, (e.runNodes false ids).outcome = .ok last → ran = ids) := by
  induction ids generalizing e with
  | nil => exact ⟨[], List.prefix_rfl, rfl, fun _ _ => rfl⟩
  | cons id ids ih =>
    simp only [runNodes, Bool.false_eq_true, if_false]
    rcases e.runNode_reports id with ⟨next, ran, graph, reported⟩ | ⟨reason, failed⟩
    · obtain ⟨done, isPrefix, reported', whole⟩ := ih next
      refine ⟨id :: done, List.cons_prefix_cons.mpr ⟨rfl, isPrefix⟩, ?_, fun last ended => ?_⟩
      · rw [Logged.events_bind_of_ok _ _ next ran, reported, reported', graph]
        exact (List.filterMap_append ..).symm
      · rw [Logged.outcome_bind, ran, Outcome.ok_bind] at ended
        rw [whole last ended]
    · refine ⟨[], List.nil_prefix, ?_, fun last ended => ?_⟩
      · rw [Logged.events_bind_of_error _ _ reason (by rw [failed]), failed]
        rfl
      · rw [failed] at ended
        cases ended

theorem runNodes_finish_reports (e : Evaluation Int) (ids : List Int) :
    ∃ ran, ran <+: ids ∧
      (do let last ← e.runNodes false ids; last.finish : Logged Fragment).events =
        reports e.graph ran ∧
      ∀ f, (do let last ← e.runNodes false ids; last.finish : Logged Fragment).outcome = .ok f →
        ran = ids := by
  obtain ⟨ran, isPrefix, reported, whole⟩ := e.runNodes_reports ids
  refine ⟨ran, isPrefix, ?_, fun f finished => ?_⟩
  · rw [← reported]
    cases ended : (e.runNodes false ids).outcome with
    | error reason => rw [Logged.events_bind_of_error _ _ reason ended]
    | ok last =>
      rw [Logged.events_bind_of_ok _ _ last ended]
      exact List.append_nil _
  · rw [Logged.outcome_bind] at finished
    obtain ⟨last, ended, -⟩ := Outcome.bind_eq_ok_iff.mp finished
    exact whole last ended

end Reports

end Evaluation

namespace Graph

variable {g : Graph Int} {selector : Option Int} {sink : Int}

/-- An order in which the nodes that a sink needs can run: each once, after all that feed it. -/
structure Schedule (g : Graph Int) (sink : Int) (order : List Int) : Prop where
  nodup : order.Nodup
  live : ∀ id, id ∈ order ↔ g.LeadsTo id sink
  ordered : g.Ordered order

/-- The evaluation of a sink before any node ran. -/
def initial (g : Graph Int) (sink : Int) (order : List Int) : Evaluation Int :=
  { graph := g, sink, live := order, pending := order }

/-- All nodes that lead to one with outputs have outputs. -/
theorem value_isSome_of_leadsTo (sound : g.Sound) {acyclic : g.Acyclic} {id : Int}
    (leads : g.LeadsTo id sink) (solved : (g.value acyclic sink sink).isSome = true) :
    (g.value acyclic sink id).isSome = true := by
  induction leads using Relation.ReflTransGen.head_induction_on with
  | refl => exact solved
  | head feeds _ ih => exact value_isSome_of_feeds sound feeds ih

/-- A selected sink of a graph without cycles is built by running the nodes of a schedule in turn.
-/
theorem exists_schedule (sound : g.Sound) (acyclic : g.Acyclic)
    (selects : g.Selects selector sink) :
    ∃ order, g.Schedule sink order ∧ g.build (selector.map .int) false = (do
      let last ← (g.initial sink order).runNodes false order
      last.finish) := by
  obtain ⟨n, selected, rfl⟩ := selectSink_eq_ok sound selects
  obtain ⟨order, made, nodup, greedy, live⟩ :=
    exists_greedy_order sound acyclic selects.isSink.mem_ids
  refine ⟨order, ⟨nodup, live, greedy.sequenced⟩, ?_⟩
  have started : Evaluation.start g n.id = .ok (g.initial n.id order) := by
    rw [Evaluation.start, made, Outcome.ok_bind]
    rfl
  rw [build, selected, Logged.liftM_ok_bind, started, Logged.liftM_ok_bind]
  rfl

theorem follows_initial {order : List Int} (schedule : g.Schedule sink order)
    (acyclic : g.Acyclic) :
    Evaluation.Follows g acyclic (g.initial sink order) :=
  ⟨rfl, schedule.live, by simp [initial]⟩

theorem Schedule.mem_ids {order : List Int} (schedule : g.Schedule sink order) (sound : g.Sound)
    (present : sink ∈ g.ids) : ∀ id ∈ order, id ∈ g.ids :=
  fun id member => ((schedule.live id).mp member).mem_ids sound present

/-- Running a schedule ends with the fragment that recursion gives, if its ids can be written. -/
theorem Schedule.run_eq_ok_iff {order : List Int} (schedule : g.Schedule sink order)
    (sound : g.Sound)
    (isPure : g.registry.IsPure) (acyclic : g.Acyclic) (present : sink ∈ g.ids) {f : Fragment} :
    (do
      let last ← ((g.initial sink order).runNodes false order).outcome
      last.finish) = .ok f ↔
      (g.value acyclic sink sink).bind (·.lookup Kind.resultKey) = some f ∧
        ∀ id, g.LeadsTo id sink → Writable id := by
  have inv := follows_initial schedule acyclic
  have inside := schedule.mem_ids sound present
  have live : sink ∈ order := (schedule.live sink).mpr .refl
  rw [Outcome.bind_eq_ok_iff]
  constructor
  · rintro ⟨last, ran, finished⟩
    obtain ⟨inv', same, outputs, written⟩ :=
      inv.of_runNodes sound isPure inside schedule.nodup schedule.ordered ran
    have same : last.sink = sink := same
    refine ⟨?_, fun id leads => written id ((schedule.live id).mpr leads)⟩
    rw [inv'.finish_eq_ok_iff (by rw [outputs, same]; exact live), same] at finished
    exact finished
  · rintro ⟨given, written⟩
    obtain ⟨made, solved, -⟩ := Option.bind_eq_some_iff.mp given
    have solved : (g.value acyclic sink sink).isSome = true :=
      Option.isSome_iff_exists.mpr ⟨made, solved⟩
    obtain ⟨last, ran⟩ := inv.exists_runNodes sound isPure inside schedule.nodup schedule.ordered
      (fun id member => written id ((schedule.live id).mp member))
      (fun id member => value_isSome_of_leadsTo sound ((schedule.live id).mp member) solved)
    obtain ⟨inv', same, outputs, -⟩ :=
      inv.of_runNodes sound isPure inside schedule.nodup schedule.ordered ran
    have same : last.sink = sink := same
    refine ⟨last, ran, ?_⟩
    rw [inv'.finish_eq_ok_iff (by rw [outputs, same]; exact live), same]
    exact given

/-- When a node of a schedule runs, it finds the outputs of all nodes that feed it. -/
theorem Schedule.lookup_source {front back : List Int} {id : Int}
    (schedule : g.Schedule sink (front ++ id :: back)) (sound : g.Sound)
    (isPure : g.registry.IsPure) (acyclic : g.Acyclic) (present : sink ∈ g.ids) {e : Evaluation Int}
    (ran : ((g.initial sink (front ++ id :: back)).runNodes false front).outcome = .ok e)
    {l : Link Int} (member : l ∈ g.links) (target : l.target = id) :
    ∃ made, e.outputs.lookup l.source = some made ∧ g.value acyclic sink l.source = some made := by
  obtain ⟨inv, same, outputs, -⟩ := (follows_initial schedule acyclic).of_runNodes sound isPure
    (fun id member => schedule.mem_ids sound present id (List.mem_append_left _ member))
    schedule.nodup.of_append_left schedule.ordered.of_append ran
  have same : e.sink = sink := same
  have fed : l.source ∈ e.outputs.map Prod.fst := by
    have before := schedule.ordered front id back rfl l.source ⟨l, member, rfl, target⟩
    rw [outputs]
    exact List.mem_append_right _ (by simpa using before)
  exact same ▸ inv.values l.source fed

/-- Building a sink gives what plain recursion gives, provided that the ids it writes down on its
way can be written. Each node that takes part runs once, after all that feed it, and is then
reported; and when it runs, the outputs of those that feed it are there and are what recursion
gives. -/
theorem build_eq_ok_iff_recursion (sound : g.Sound) (isPure : g.registry.IsPure)
    (acyclic : g.Acyclic) (selects : g.Selects selector sink) :
    (∀ f, (g.build (selector.map .int) false).outcome = .ok f ↔
      (g.value acyclic sink sink).bind (·.lookup Kind.resultKey) = some f ∧
        ∀ id, g.LeadsTo id sink → Writable id) ∧
    ∃ order, g.Schedule sink order ∧
      g.build (selector.map .int) false = (do
        let last ← (g.initial sink order).runNodes false order
        last.finish) ∧
      (∃ ran, ran <+: order ∧
        (g.build (selector.map .int) false).events = Evaluation.reports g ran ∧
        ∀ f, (g.build (selector.map .int) false).outcome = .ok f → ran = order) ∧
      ∀ front id back e, order = front ++ id :: back →
        ((g.initial sink order).runNodes false front).outcome = .ok e →
        ∀ l ∈ g.links, l.target = id → ∃ made, e.outputs.lookup l.source = some made ∧
          g.value acyclic sink l.source = some made := by
  obtain ⟨order, schedule, built⟩ := exists_schedule sound acyclic selects
  have present : sink ∈ g.ids := selects.isSink.mem_ids
  refine ⟨fun f => ?_, order, schedule, built, ?_, ?_⟩
  · rw [built, Logged.outcome_bind]
    exact schedule.run_eq_ok_iff sound isPure acyclic present
  · rw [built]
    exact Evaluation.runNodes_finish_reports _ order
  · rintro front id back e rfl ran l member target
    exact schedule.lookup_source sound isPure acyclic present ran member target

/-- A canvas that nothing feeds has a result by recursion. -/
theorem exists_value_of_lone_canvas (builtin : g.registry = .builtin) (unlinked : g.links = [])
    (acyclic : g.Acyclic) {id : Int}
    (found : (g.find? id).any (·.kind == Kind.canvas.name) = true) :
    ∃ f, (g.value acyclic id id).bind (·.lookup Kind.resultKey) = some f := by
  obtain ⟨n, present, named⟩ := (Option.any_eq_true ..).mp found
  have kind : g.registry.find? n.kind = some Kind.canvas := by
    rw [builtin, beq_iff_eq.mp named]
    rfl
  have none : ∀ input, g.linksInto id input = [] := by
    intro input
    rw [linksInto, unlinked, List.filter_nil]
  rw [value_eq, present]
  simp only [Option.bind_eq_bind, Option.bind_some, kind, broughtTo, none]
  exact ⟨_, rfl⟩

/-- A blur that several links read is built as recursion has it. A sink with an id too long to be
written has a value by recursion and cannot be built. -/
theorem build_eq_ok_iff_recursion_blendedBlur :
    (Graph.run {} blendedBlur).Sound ∧ (Graph.run {} blendedBlur).registry.IsPure ∧
      (Graph.run {} blendedBlur).Selects none 4 ∧
      (∃ (acyclic : (Graph.run {} blendedBlur).Acyclic) (f : Fragment),
        ((Graph.run {} blendedBlur).build none false).outcome = .ok f ∧
        ((Graph.run {} blendedBlur).value acyclic 4 4).bind (·.lookup Kind.resultKey) = some f) ∧
      ∃ (acyclic : (Graph.run {} longIds).Acyclic) (f : Fragment),
        ((Graph.run {} longIds).value acyclic Json.integerBound Json.integerBound).bind
          (·.lookup Kind.resultKey) = some f ∧
        ((Graph.run {} longIds).build none false).outcome ≠ .ok f := by
  have sound : (Graph.run {} blendedBlur).Sound := sound_run (.empty _ _) blendedBlur
  have isPure : ∀ edits, (Graph.run {} edits).registry.IsPure := by
    intro edits
    rw [registry_run]
    exact isPure_builtin
  obtain ⟨accepted, acyclic, selects⟩ : Graph.runAccepted {} blendedBlur = .ok _ ∧
      (Graph.run {} blendedBlur).Acyclic ∧ (Graph.run {} blendedBlur).Selects none 4 :=
    selects_of_ascending (by decide +kernel) (by decide +kernel) (by decide +kernel)
      (by decide +kernel)
  obtain ⟨c, f, p, compiled⟩ := exists_compiled accepted acyclic selects
  refine ⟨sound, isPure _, selects, ⟨acyclic, _, compiled.built, ?_⟩, ?_⟩
  · exact (((build_eq_ok_iff_recursion sound (isPure _) acyclic selects).1 _).mp compiled.built).1
  · have unlinked : (Graph.run {} longIds).links = [] := by decide +kernel
    have ascending : ∀ l ∈ (Graph.run {} longIds).links, l.source.toNat < l.target.toNat := by
      simp [unlinked]
    have selects : (Graph.run {} longIds).Selects none Json.integerBound :=
      selects_only (by decide +kernel) (by decide +kernel)
    have acyclic := acyclic_of_ascending ascending
    have named : ((Graph.run {} longIds).find? Json.integerBound).any (·.kind == Kind.canvas.name) =
        true := by decide +kernel
    obtain ⟨f, given⟩ :=
      exists_value_of_lone_canvas (registry_run {} longIds) unlinked acyclic named
    refine ⟨acyclic, f, given, fun built => not_writable_integerBound ?_⟩
    have all := (((build_eq_ok_iff_recursion (sound_run (.empty _ _) longIds) (isPure _) acyclic
      selects).1 f).mp built).2
    exact all _ .refl

end Graph

end ShaderFlow
