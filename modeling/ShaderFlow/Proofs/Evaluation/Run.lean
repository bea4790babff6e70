import ShaderFlow.Evaluation.Basic
import ShaderFlow.Proofs.Evaluation.Order
import ShaderFlow.Proofs.Graph.Socket
import ShaderFlow.Proofs.Kind.Formula

set_option autoImplicit false

namespace ShaderFlow

open Definition Fragment

namespace Graph

variable {g : Graph Int}

/-- The first link into an input. -/
def firstLink? (g : Graph Int) (id : Int) (input : String) : Option (Link Int) :=
  (g.linksInto id input).head?

theorem feeds_of_firstLink? {id : Int} {input : String} {l : Link Int}
    (found : g.firstLink? id input = some l) : g.Feeds l.source id := by
  obtain ⟨member, target, _⟩ := mem_linksInto.mp (List.mem_of_head? found)
  exact ⟨l, member, rfl, target⟩

/-- Recursion over a graph without cycles: a formula gives what is on an output of a node by its
kind, its data, and what the first link into each input leads to. -/
def solve {α : Type} (g : Graph Int) (acyclic : g.Acyclic) (blank : α)
    (formula : String → Json → (String → Option α) → String → α) : Int → String → α :=
  acyclic.fix fun id solved output =>
    match g.find? id with
    | none => blank
    | some n =>
      formula n.kind (.obj n.data) (fun input =>
        match found : g.firstLink? id input with
        | none => none
        | some l => some (solved l.source (feeds_of_firstLink? found) l.output)) output

theorem solve_eq {α : Type} (acyclic : g.Acyclic) (blank : α)
    (formula : String → Json → (String → Option α) → String → α) {id : Int} {n : Node Int}
    (present : g.find? id = some n) : g.solve acyclic blank formula id =
      formula n.kind (.obj n.data) fun input => (g.firstLink? id input).map fun l =>
        g.solve acyclic blank formula l.source l.output := by
  funext output
  unfold solve
  rw [WellFounded.fix_eq]
  simp only [present]
  congr 1
  funext input
  split
  · rename_i missing
    rw [missing]
    rfl
  · rename_i l found
    simp only [found, Option.map_some]

/-- What an output of a node stands for: the formula of its kind, applied to what the first link
into each input leads to. Nothing is named and nothing is shared. -/
def meaning (g : Graph Int) (acyclic : g.Acyclic) : Int → String → Term :=
  acyclic.fix fun id meaning output =>
    match g.find? id with
    | none => .absent
    | some n =>
      Kind.formula n.kind (.obj n.data) (fun input =>
        match found : g.firstLink? id input with
        | none => none
        | some l => some (meaning l.source (feeds_of_firstLink? found) l.output)) output

/-- What stands on an input of a node. -/
def operand (g : Graph Int) (acyclic : g.Acyclic) (id : Int) (input : String) : Option Term :=
  (g.firstLink? id input).map fun l => g.meaning acyclic l.source l.output

theorem meaning_eq (acyclic : g.Acyclic) {id : Int} {n : Node Int} (present : g.find? id = some n) :
    g.meaning acyclic id = Kind.formula n.kind (.obj n.data) (g.operand acyclic id) := by
  have solved : g.meaning acyclic = g.solve acyclic Term.absent Kind.formula := rfl
  rw [solved, solve_eq acyclic Term.absent Kind.formula present]
  rfl

end Graph

namespace Evaluation

variable {g : Graph Int} {e : Evaluation Int} {c : List Definition}

section Inputs

/-- The entries that a list of sockets receives are found under their keys. -/
theorem lookup_of_forall₂ {P : String → List Fragment → Prop} {sockets : List Socket}
    {inputs : Inputs}
    (related : List.Forall₂ (fun s entry => entry.1 = s.key ∧ P s.key entry.2) sockets inputs)
    (key : String) :
    (key ∉ sockets.map Socket.key ∧ inputs.lookup key = none) ∨
      ∃ arrived, inputs.lookup key = some arrived ∧ P key arrived := by
  induction related with
  | nil => exact .inl ⟨by simp, rfl⟩
  | @cons s entry _ _ here _ ih =>
    obtain ⟨k, arrived⟩ := entry
    obtain ⟨rfl, holds⟩ := here
    by_cases same : key = s.key
    · subst same
      exact .inr ⟨arrived, by simp, holds⟩
    · have other : (key == s.key) = false := by simpa using same
      simpa [List.lookup_cons, other, same] using ih

/-- Each input of a node receives what its links bring. -/
theorem forall₂_inputsFor {id : Int} {k : Kind} {inputs : Inputs}
    (ran : e.inputsFor id k = .ok inputs) :
    List.Forall₂ (fun s entry => entry.1 = s.key ∧
      (e.graph.linksInto id s.key).mapM e.arriving = .ok entry.2) k.inputs inputs := by
  refine (Outcome.mapM_eq_ok_iff.mp ran).imp fun s entry made => ?_
  rw [Graph.lookup_inputsOf] at made
  obtain ⟨fs, brought, same⟩ := Outcome.bind_eq_ok_iff.mp made
  cases same
  exact ⟨rfl, brought⟩

/-- The inputs of a node can be collected when each link into it brings something. -/
theorem exists_inputsFor (id : Int) (k : Kind)
    (each : ∀ l ∈ e.graph.links, l.target = id → ∃ f, e.arriving l = .ok f) :
    ∃ inputs, e.inputsFor id k = .ok inputs ∧ List.Forall₂ (fun s entry => entry.1 = s.key ∧
      (e.graph.linksInto id s.key).mapM e.arriving = .ok entry.2) k.inputs inputs := by
  obtain ⟨inputs, ran⟩ : ∃ inputs, e.inputsFor id k = .ok inputs := by
    refine Outcome.exists_mapM_eq_ok fun s _ => ?_
    rw [Graph.lookup_inputsOf]
    obtain ⟨fs, brought⟩ : ∃ fs, (e.graph.linksInto id s.key).mapM e.arriving = .ok fs := by
      refine Outcome.exists_mapM_eq_ok fun l member => ?_
      obtain ⟨inside, target, _⟩ := Graph.mem_linksInto.mp member
      exact each l inside target
    exact ⟨(s.key, fs), Outcome.bind_eq_ok_iff.mpr ⟨fs, brought, rfl⟩⟩
  exact ⟨inputs, ran, forall₂_inputsFor ran⟩

/-- What stands first on an input is what its first link brings. -/
theorem head?_arriving {links : List (Link Int)} {fs : List Fragment} {meaning : Link Int → Term}
    (brought : links.mapM e.arriving = .ok fs)
    (each : ∀ l ∈ links, ∃ f, e.arriving l = .ok f ∧ Carries c f (meaning l)) :
    Option.Rel (Carries c) fs.head? (links.head?.map meaning) := by
  cases links with
  | nil =>
    cases brought
    exact .none
  | cons l rest =>
    obtain ⟨f, fs', here, _, rfl⟩ :=
      List.forall₂_cons_left_iff.mp (Outcome.mapM_eq_ok_iff.mp brought)
    obtain ⟨f', again, carries⟩ := each l List.mem_cons_self
    obtain rfl : f = f' := by simpa [here] using again
    exact .some carries

/-- No link leads to an input that the kind of a node does not declare. -/
theorem linksInto_eq_nil (sound : g.Sound) {id : Int} {k : Kind} (hosts : g.Hosts id k)
    {input : String} (undeclared : input ∉ k.inputs.map Socket.key) :
    g.linksInto id input = [] := by
  rw [List.eq_nil_iff_forall_not_mem]
  intro l member
  obtain ⟨inside, rfl, rfl⟩ := Graph.mem_linksInto.mp member
  obtain ⟨_, k', _, i, _, hosts', _, declared, _⟩ := sound.joins l inside
  obtain rfl := hosts.kind_eq sound hosts'
  have key : i.key = l.input := by simpa using List.find?_some declared
  exact undeclared (List.mem_map.mpr ⟨i, List.mem_of_find?_eq_some declared, key⟩)

/-- When every link into a node brings what it should, so do the inputs of the node. -/
theorem exists_arrives (sound : e.graph.Sound) {id : Int} {k : Kind} (hosts : e.graph.Hosts id k)
    {meaning : Int → String → Term}
    (each : ∀ l ∈ e.graph.links, l.target = id →
      ∃ f, e.arriving l = .ok f ∧ Carries c f (meaning l.source l.output)) :
    ∃ inputs, e.inputsFor id k = .ok inputs ∧ Kind.Arrives c inputs fun input =>
      (e.graph.firstLink? id input).map fun l => meaning l.source l.output := by
  obtain ⟨inputs, ran, related⟩ := exists_inputsFor id k fun l member target =>
    (each l member target).imp fun _ brings => brings.1
  refine ⟨inputs, ran, fun input => ?_⟩
  show Option.Rel (Carries c) (Inputs.first? inputs input)
    ((e.graph.linksInto id input).head?.map fun l => meaning l.source l.output)
  rcases lookup_of_forall₂ (P := fun key fs => (e.graph.linksInto id key).mapM e.arriving = .ok fs)
    related input with ⟨undeclared, missing⟩ | ⟨fs, found, brought⟩
  · rw [Inputs.first?, missing, linksInto_eq_nil sound hosts undeclared]
    exact .none
  · rw [Inputs.first?, found]
    refine head?_arriving brought fun l member => ?_
    obtain ⟨inside, target, _⟩ := Graph.mem_linksInto.mp member
    exact each l inside target

end Inputs

section Outputs

theorem lookup_updateOutput (produced : Outputs) (key k : String) (f : Fragment → Fragment) :
    (updateOutput produced key f).lookup k =
      if k = key then (produced.lookup k).map f else produced.lookup k := by
  induction produced with
  | nil => simp [updateOutput]
  | cons entry rest ih =>
    obtain ⟨k', fragment⟩ := entry
    rw [updateOutput, List.map_cons, ← updateOutput, List.lookup_cons, List.lookup_cons, ih]
    by_cases here : k = k'
    · subst here
      by_cases same : k = key <;> simp [same]
    · have other : (k == k') = false := by simpa using here
      simp [other]

theorem shared_name_eq (id : Int) (key : String) :
    s!"out_{(NodeId.toJson id).bare}_{key}" = Label.outputName id key := by
  show "out_" ++ id.repr ++ "_" ++ key = "out" ++ "_" ++ (id.repr ++ "_" ++ key)
  simp only [← String.append_assoc]
  rfl

/-- Naming one output keeps what all of them mean. -/
theorem delivers_updateOutput {id : Int} {k : Kind} {s : Socket} {produced : Outputs}
    {meaning : String → Term} (isOutput : s ∈ k.outputs) (catalog : Catalog c)
    (fresh : Label.outputName id s.key ∉ c.map Definition.name)
    (delivers : Kind.Delivers c k produced meaning) (noSink : k.isSink = true → k.outputs = []) :
    ∃ c', Catalog c' ∧ Grows (· = Label.outputName id s.key) c c' ∧
      Kind.Delivers c' k (updateOutput produced s.key
        (·.bind s!"out_{(NodeId.toJson id).bare}_{s.key}" s.type.shaderType)) meaning := by
  obtain ⟨f, found, carries⟩ := delivers.outputs s isOutput
  obtain ⟨c', catalog', grows, bound⟩ := carries.bind catalog fresh s.type.shaderType
  refine ⟨c', catalog', grows, fun t member => ?_, fun isSink => ?_⟩
  · rw [lookup_updateOutput, shared_name_eq]
    by_cases same : t.key = s.key
    · rw [if_pos same, same, found]
      exact ⟨_, rfl, bound⟩
    · obtain ⟨f', found', carries'⟩ := delivers.outputs t member
      rw [if_neg same]
      exact ⟨f', found', carries'.grow catalog' grows⟩
  · rw [noSink isSink] at isOutput
    cases isOutput

/-- Naming the outputs that several links read keeps what they mean. -/
theorem delivers_bindShared {id : Int} {k : Kind} {produced : Outputs} {meaning : String → Term}
    (keys : (k.outputs.map Socket.key).Nodup) (catalog : Catalog c)
    (fresh : ∀ key, Label.outputName id key ∉ c.map Definition.name)
    (delivers : Kind.Delivers c k produced meaning) (noSink : k.isSink = true → k.outputs = []) :
    ∃ c', Catalog c' ∧ Grows (fun n => ∃ key, n = Label.outputName id key) c c' ∧
      Kind.Delivers c' k (e.bindShared id k produced) meaning := by
  -- The keys still to come are fresh; those passed by may have been given to the catalog.
  suffices steps : ∀ (rest : List Socket) (c : List Definition) (acc : Outputs),
      rest ⊆ k.outputs → (rest.map Socket.key).Nodup → Catalog c →
      (∀ s ∈ rest, Label.outputName id s.key ∉ c.map Definition.name) →
      Kind.Delivers c k acc meaning →
      ∃ c', Catalog c' ∧ Grows (fun n => ∃ key, n = Label.outputName id key) c c' ∧
        Kind.Delivers c' k (rest.foldl (fun acc s =>
          if e.fanOut id s.key > 1 then
            updateOutput acc s.key
              (·.bind s!"out_{(NodeId.toJson id).bare}_{s.key}" s.type.shaderType)
          else acc) acc) meaning from
    steps k.outputs c produced (fun _ member => member) keys catalog (fun s _ => fresh s.key)
      delivers
  intro rest
  induction rest with
  | nil => exact fun c acc _ _ catalog _ delivers => ⟨c, catalog, .refl _ c, delivers⟩
  | cons s rest ih =>
    intro c acc within keys catalog fresh delivers
    obtain ⟨other, keys⟩ := List.nodup_cons.mp keys
    obtain ⟨isOutput, inside⟩ := List.cons_subset.mp within
    rw [List.foldl_cons]
    split
    · obtain ⟨c', catalog', grows, delivers'⟩ :=
        delivers_updateOutput isOutput catalog (fresh s List.mem_cons_self) delivers noSink
      have later : ∀ t ∈ rest, Label.outputName id t.key ∉ c'.map Definition.name := by
        intro t member again
        rcases grows.mem_names again with again | named
        · exact fresh t (List.mem_cons_of_mem _ member) again
        · exact other (List.mem_map.mpr ⟨t, member, (Label.outputName_inj named).2⟩)
      obtain ⟨c'', catalog'', grows', done⟩ := ih c' _ inside keys catalog' later delivers'
      exact ⟨c'', catalog'', (grows.mono fun n same => ⟨s.key, same⟩).trans grows', done⟩
    · exact ih c acc inside keys catalog (fun t member => fresh t (List.mem_cons_of_mem _ member))
        delivers

end Outputs

theorem lookup_append_of_mem {outputs : List (Int × Outputs)} {id : Int} {produced : Outputs}
    (found : outputs.lookup id = some produced) (more : List (Int × Outputs)) :
    (outputs ++ more).lookup id = some produced := by
  rw [List.lookup_append, found]
  rfl

theorem lookup_append_self {outputs : List (Int × Outputs)} {id : Int}
    (new : id ∉ outputs.map Prod.fst) (produced : Outputs) :
    (outputs ++ [(id, produced)]).lookup id = some produced := by
  have missing : outputs.lookup id = none := by
    rw [List.lookup_eq_none_iff]
    intro entry member
    have other : id ≠ entry.1 := fun same => new (List.mem_map.mpr ⟨entry, member, same.symm⟩)
    simpa using other
  rw [List.lookup_append, missing]
  simp

/-- The state of a run: the outputs of all nodes that ran mean what they should, over a catalog of
the names given on their account. -/
structure Running (g : Graph Int) (acyclic : g.Acyclic) (c : List Definition) (e : Evaluation Int) :
    Prop where
  graph_eq : e.graph = g
  catalog : Catalog c
  issued : ∀ d ∈ c, ∃ id ∈ e.outputs.map Prod.fst, Label.Issued id d.name
  delivers : ∀ id ∈ e.outputs.map Prod.fst, ∀ k, g.Hosts id k →
    ∃ produced, e.outputs.lookup id = some produced ∧
      Kind.Delivers c k produced (g.meaning acyclic id)

namespace Running

variable {acyclic : g.Acyclic}

theorem arriving (inv : Running g acyclic c e) (sound : g.Sound) {l : Link Int}
    (member : l ∈ g.links) (ran : l.source ∈ e.outputs.map Prod.fst) :
    ∃ f, e.arriving l = .ok f ∧ Carries c f (g.meaning acyclic l.source l.output) := by
  obtain ⟨k, _, o, _, hosts, _, declared, _⟩ := sound.joins l member
  obtain ⟨produced, found, delivers⟩ := inv.delivers l.source ran k hosts
  have key : o.key = l.output := by simpa using List.find?_some declared
  obtain ⟨f, given, carries⟩ := delivers.outputs o (List.mem_of_find?_eq_some declared)
  rw [key] at given carries
  exact ⟨f, by simp [Evaluation.arriving, found, given], carries⟩

theorem fresh (inv : Running g acyclic c e) {id : Int} (new : id ∉ e.outputs.map Prod.fst)
    {n : String} (issued : Label.Issued id n) : n ∉ c.map Definition.name := by
  intro member
  obtain ⟨d, inside, rfl⟩ := List.mem_map.mp member
  obtain ⟨id', ran, issued'⟩ := inv.issued d inside
  exact new (issued.id_eq issued' ▸ ran)

/-- The next node takes its place among those that ran. -/
theorem append (inv : Running g acyclic c e) {id : Int} (new : id ∉ e.outputs.map Prod.fst)
    {c' : List Definition} (catalog : Catalog c') (grows : Grows (Label.Issued id) c c')
    {k : Kind} (sound : g.Sound) (hosts : g.Hosts id k) {produced : Outputs}
    (delivers : Kind.Delivers c' k produced (g.meaning acyclic id)) :
    Running g acyclic c' { e with outputs := e.outputs ++ [(id, produced)] } where
  graph_eq := inv.graph_eq
  catalog := catalog
  issued := by
    obtain ⟨added, rfl, each⟩ := grows
    intro d member
    rw [List.map_append]
    rcases List.mem_append.mp member with member | member
    · obtain ⟨id', ran, issued⟩ := inv.issued d member
      exact ⟨id', List.mem_append_left _ ran, issued⟩
    · exact ⟨id, by simp, each d member⟩
  delivers := by
    intro other member k' hosts'
    rw [List.map_append, List.mem_append] at member
    rcases member with ran | last
    · obtain ⟨produced', found, delivers'⟩ := inv.delivers other ran k' hosts'
      exact ⟨produced', lookup_append_of_mem found _, delivers'.grow catalog grows⟩
    · obtain rfl : other = id := by simpa using last
      obtain rfl := hosts.kind_eq sound hosts'
      exact ⟨produced, lookup_append_self new produced, delivers⟩

/-- The names that a node's outputs may be given are still free after its worker ran. -/
theorem outputName_fresh (inv : Running g acyclic c e) {id : Int}
    (new : id ∉ e.outputs.map Prod.fst) {c' : List Definition} (grows : Grows (Label.Own id) c c')
    (key : String) : Label.outputName id key ∉ c'.map Definition.name := by
  intro again
  rcases grows.mem_names again with again | own
  · exact inv.fresh new (.output key) again
  · exact own.ne_outputName key rfl

/-- Running a node whose inputs all ran fails only if its id cannot be written. -/
theorem runNode (inv : Running g acyclic c e) (sound : g.Sound) (builtin : g.registry = .builtin)
    {id : Int} (present : id ∈ g.ids) (new : id ∉ e.outputs.map Prod.fst)
    (fed : ∀ a, g.Feeds a id → a ∈ e.outputs.map Prod.fst) :
    ∃ c' produced, Running g acyclic c' { e with outputs := e.outputs ++ [(id, produced)] } ∧
      (e.runNode id).outcome = (do
        (Json.int id).checkWritable
        return { e with outputs := e.outputs ++ [(id, produced)] }) := by
  obtain ⟨n, member, rfl⟩ := List.mem_map.mp present
  obtain ⟨k, found, valid⟩ := sound.accepts n member
  have hosts : g.Hosts n.id k := ⟨n, member, rfl, found⟩
  have isBuiltin : k ∈ Registry.builtinKinds := hosts.builtin builtin
  have meaning_eq : g.meaning acyclic n.id =
      Kind.formula k.name (.obj n.data) (g.operand acyclic n.id) := by
    rw [Graph.meaning_eq acyclic (Graph.find?_eq_some sound member),
      show k.name = n.kind by simpa using List.find?_some found]
  obtain ⟨inputs, collected, arrives⟩ : ∃ inputs, e.inputsFor n.id k = .ok inputs ∧
      Kind.Arrives c inputs (g.operand acyclic n.id) := by
    obtain rfl := inv.graph_eq
    exact exists_arrives sound hosts fun l inside target =>
      inv.arriving sound inside (fed l.source ⟨l, inside, rfl, target⟩)
  obtain ⟨produced, c', worked, catalog', grows, delivers⟩ :=
    Kind.works_builtin isBuiltin inv.catalog (fun _ own => inv.fresh new (.own own)) valid arrives
      e.outputs.length
  obtain ⟨keys, noSink⟩ := Kind.builtin_sockets k isBuiltin
  obtain ⟨c'', catalog'', grows', delivers'⟩ :=
    delivers_bindShared (e := e) keys catalog' (inv.outputName_fresh new grows) delivers noSink
  rw [← meaning_eq] at delivers'
  refine ⟨c'', e.bindShared n.id k produced, inv.append new catalog'' ?_ sound hosts delivers', ?_⟩
  · exact (grows.mono fun _ own => .own own).trans
      (grows'.mono fun _ ⟨key, same⟩ => same ▸ .output key)
  · have node_eq : e.graph.node n.id = .ok n := by
      rw [inv.graph_eq, Graph.node_eq_ok_of_mem sound member]
    have kindOf_eq : e.graph.kindOf n = .ok k := by
      rw [inv.graph_eq, Graph.kindOf_eq_ok found]
    simp only [Evaluation.runNode, Logged.outcome_bind, Logged.outcome_liftM, node_eq, kindOf_eq,
      collected, Outcome.ok_bind]
    rw [show k.worker ⟨n.label, e.outputs.length⟩ (.obj n.data) inputs = .ok produced from worked]
    simp only [Logged.outcome_tell, Logged.outcome_pure, Outcome.ok_bind]
    congr 1

theorem runNodes {rest : List Int} (inv : Running g acyclic c e) (sound : g.Sound)
    (builtin : g.registry = .builtin) (present : ∀ id ∈ rest, id ∈ g.ids)
    (nodup : (e.outputs.map Prod.fst ++ rest).Nodup)
    (ordered : g.Ordered (e.outputs.map Prod.fst ++ rest)) :
    ∃ c' e', Running g acyclic c' e' ∧ e'.sink = e.sink ∧
      e'.outputs.map Prod.fst = e.outputs.map Prod.fst ++ rest ∧
      (e.runNodes false rest).outcome = (do
        (rest.map Json.int).forM Json.checkWritable
        return e') := by
  induction rest generalizing c e with
  | nil => exact ⟨c, e, inv, rfl, by simp, rfl⟩
  | cons id rest ih =>
    have new : id ∉ e.outputs.map Prod.fst := fun again =>
      List.disjoint_of_nodup_append nodup again List.mem_cons_self
    have fed : ∀ a, g.Feeds a id → a ∈ e.outputs.map Prod.fst := by
      simpa using ordered (e.outputs.map Prod.fst) id rest rfl
    obtain ⟨c', produced, inv', ran⟩ :=
      inv.runNode sound builtin (present id List.mem_cons_self) new fed
    obtain ⟨c'', e'', inv'', sink, outputs, ran'⟩ := ih inv'
      (fun id member => present id (List.mem_cons_of_mem _ member))
      (by simpa using nodup) (by simpa using ordered)
    refine ⟨c'', e'', inv'', sink, by simpa using outputs, ?_⟩
    simp only [Evaluation.runNodes, Bool.false_eq_true, if_false, Logged.outcome_bind, ran,
      List.map_cons, List.forM_eq_forM, List.forM_cons, bind_assoc, pure_bind]
    rw [List.forM_eq_forM] at ran'
    rw [ran']

/-- Once its sink ran, the evaluation ends with the finished fragment. -/
theorem finish (inv : Running g acyclic c e) {k : Kind} (hosts : g.Hosts e.sink k)
    (isSink : k.isSink = true) (ran : e.sink ∈ e.outputs.map Prod.fst) :
    ∃ f, e.finish = .ok (f.complete [.commit f.value]) ∧
      Carries c f (g.meaning acyclic e.sink Kind.resultKey) := by
  obtain ⟨produced, found, delivers⟩ := inv.delivers e.sink ran k hosts
  obtain ⟨f, given, carries⟩ := delivers.result isSink
  exact ⟨f, by simp [Evaluation.finish, found, given], carries⟩

end Running

end Evaluation

namespace Graph

variable {g : Graph Int}

theorem LeadsTo.mem_ids {id sink : Int} (path : g.LeadsTo id sink) (sound : g.Sound)
    (present : sink ∈ g.ids) : id ∈ g.ids := by
  rcases Relation.ReflTransGen.cases_head path with rfl | ⟨_, feeds, _⟩
  · exact present
  · exact (sound.mem_ids feeds).1

/-- A graph without cycles builds for every sink, unless the id of some node that takes part cannot
be written. -/
theorem build_eq (sound : g.Sound) (builtin : g.registry = .builtin) (acyclic : g.Acyclic)
    {selector : Option Json} {n : Node Int} {k : Kind} (selected : g.selectSink selector = .ok n)
    (hosts : g.Hosts n.id k) (isSink : k.isSink = true) :
    ∃ (order : List Int) (c : List Definition) (f : Fragment),
      (∀ id, id ∈ order ↔ g.LeadsTo id n.id) ∧ Catalog c ∧
      (∀ d ∈ c, ∃ id, Label.Issued id d.name) ∧
      Carries c f (g.meaning acyclic n.id Kind.resultKey) ∧
      (g.build selector false).outcome = (do
        (order.map Json.int).forM Json.checkWritable
        return f.complete [.commit f.value]) := by
  have present : n.id ∈ g.ids := by
    obtain ⟨m, member, same, _⟩ := hosts
    exact List.mem_map.mpr ⟨m, member, same⟩
  obtain ⟨_, all, full, perm, ordered⟩ | ⟨cyclic, _⟩ := fullOrder_cases sound
  swap
  · exact absurd acyclic cyclic
  obtain ⟨order, made, nodup, ordered', members⟩ := order_eq_ok sound present full perm ordered
  let e : Evaluation Int := { graph := g, sink := n.id, live := order, pending := order }
  have start : Evaluation.Running g acyclic [] e := ⟨rfl, .nil, by simp, by simp [e]⟩
  obtain ⟨c, e', inv, sink, outputs, ran⟩ := start.runNodes sound builtin
    (fun id member => ((members id).mp member).mem_ids sound present) (by simpa [e] using nodup)
    (by simpa [e] using ordered')
  obtain ⟨f, finished, carries⟩ := inv.finish (by rw [sink]; exact hosts) isSink
    (by rw [sink, outputs]; exact List.mem_append_right _ ((members n.id).mpr .refl))
  rw [sink] at carries
  refine ⟨order, c, f, members, inv.catalog, fun d member => ?_, carries, ?_⟩
  · obtain ⟨id, _, issued⟩ := inv.issued d member
    exact ⟨id, issued⟩
  · have started : Evaluation.start g n.id = .ok e := by
      rw [Evaluation.start, made, Outcome.ok_bind]
      rfl
    simp only [build, Logged.outcome_bind, Logged.outcome_liftM, selected, started, Outcome.ok_bind]
    rw [show (e.runNodes false e.pending).outcome = _ from ran, bind_assoc]
    simp only [pure_bind, finished]
    rfl

end Graph

end ShaderFlow
