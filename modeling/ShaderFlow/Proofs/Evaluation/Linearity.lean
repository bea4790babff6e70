import ShaderFlow.Proofs.Evaluation.Record
import ShaderFlow.Proofs.Evaluation.Totality
import ShaderFlow.Proofs.Kind.Cost
import ShaderFlow.Proofs.Program.Size

set_option autoImplicit false

/-
An output that several links read is named, so that repeating it is cheap; any other output is used
up by at most one node. Hence a program grows with the count of the nodes that take part, however
they are joined.
-/

namespace ShaderFlow

open Term

namespace Evaluation

variable {e : Evaluation Int} {id : Int} {k : Kind} {inputs : Inputs} {produced : Outputs}
  {bound : Nat} {added : List Term}

theorem exists_named (e : Evaluation Int) (id : Int) (s : Socket) (f : Fragment) :
    ∃ more, (e.named id s f).statements = f.statements ++ more ∧
      sizeAll more + (e.named id s f).value.size ≤ f.value.size + 2 ∧
      (f.value.Light → (e.named id s f).value.Light) ∧
      (f.value.Light → 1 < e.fanOut id s.key → (e.named id s f).value.size ≤ 5) := by
  by_cases several : 1 < e.fanOut id s.key
  · obtain ⟨more, statements, cost, small⟩ :=
      f.exists_bind (Label.outputName id s.key) s.type.shaderType
    rw [named, if_pos several]
    exact ⟨more, statements, cost, fun light _ => small light, fun light _ => small light⟩
  · rw [named, if_neg several]
    exact ⟨[], by simp, by simp [sizeAll], fun light => light, fun _ again => absurd again several⟩

/-- Naming outputs adds two terms for each at most. -/
theorem adds_bindShared (e : Evaluation Int) (id : Int) (keys : (k.outputs.map Socket.key).Nodup)
    (adds : Kind.Adds k inputs produced bound added) :
    ∃ more, Kind.Adds k inputs (e.bindShared id k produced) (bound + 2 * k.outputs.length)
        (added ++ more) ∧
      ∀ s ∈ k.outputs, 1 < e.fanOut id s.key → ∀ f,
        (e.bindShared id k produced).lookup s.key = some f → f.value.size ≤ 5 := by
  obtain ⟨declared, undeclared⟩ := e.lookup_bindShared id keys produced
  have each : ∀ s : Socket, ∃ more, (produced.lookup s.key = none → more = []) ∧
      ∀ f, produced.lookup s.key = some f →
        (e.named id s f).statements = f.statements ++ more ∧
        sizeAll more + (e.named id s f).value.size ≤ f.value.size + 2 ∧
        (f.value.Light → (e.named id s f).value.Light) ∧
        (f.value.Light → 1 < e.fanOut id s.key → (e.named id s f).value.size ≤ 5) := by
    intro s
    cases found : produced.lookup s.key with
    | none => exact ⟨[], by simp, by simp⟩
    | some f =>
      obtain ⟨more, facts⟩ := e.exists_named id s f
      exact ⟨more, by simp, fun f' same => Option.some.inj same ▸ facts⟩
  choose more missing facts using each
  have shared : sizeAll (k.outputs.flatMap more) +
      sizeAll (Kind.valuesOn (k.outputs.map Socket.key) (e.bindShared id k produced)) ≤
        2 * k.outputs.length + sizeAll (Kind.valuesOn (k.outputs.map Socket.key) produced) := by
    rw [Kind.valuesOn_map, Kind.valuesOn_map]
    refine sizeAll_flatMap_le fun s member => ?_
    rw [declared s member]
    cases found : produced.lookup s.key with
    | none => simp [missing s found, sizeAll]
    | some f =>
      have cost := (facts s f found).2.1
      simp only [Option.map_some, Option.toList_some, sizeAll]
      omega
  have origins : ∀ key f, (e.bindShared id k produced).lookup key = some f → ∃ f₀ extra,
      produced.lookup key = some f₀ ∧ extra ⊆ k.outputs.flatMap more ∧
        f.statements = f₀.statements ++ extra ∧ f.value.Light := by
    intro key f found
    by_cases known : key ∈ k.outputs.map Socket.key
    · obtain ⟨s, inside, rfl⟩ := List.mem_map.mp known
      rw [declared s inside] at found
      obtain ⟨f₀, given, rfl⟩ := Option.map_eq_some_iff.mp found
      obtain ⟨statements, -, light, -⟩ := facts s f₀ given
      refine ⟨f₀, more s, given, ?_, statements, light (adds.light s.key f₀ given)⟩
      exact fun t member => List.mem_flatMap.mpr ⟨s, inside, member⟩
    · rw [undeclared key known] at found
      exact ⟨f, [], found, by simp, by simp, adds.light key f found⟩
  refine ⟨k.outputs.flatMap more, ⟨?_, ?_, ?_⟩, ?_⟩
  · intro key f found t member
    obtain ⟨f₀, extra, given, inside, statements, -⟩ := origins key f found
    rw [statements, List.mem_append] at member
    rcases member with member | new
    · exact (adds.origin key f₀ given t member).imp_left (List.mem_append_left _)
    · exact .inl (List.mem_append_right _ (inside new))
  · intro key f found
    obtain ⟨_, _, -, -, -, light⟩ := origins key f found
    exact light
  · have cost := adds.cost
    rw [sizeAll_append]
    omega
  · intro s member several f found
    rw [declared s member] at found
    obtain ⟨f₀, given, rfl⟩ := Option.map_eq_some_iff.mp found
    exact (facts s f₀ given).2.2.2 (adds.light s.key f₀ given) several

section Counting

/-- The value on an output of a node. -/
def value? (e : Evaluation Int) (p : Int × String) : Option Term :=
  (e.output? p.1 p.2).map Fragment.value

/-- The outputs that a node has. -/
def places (id : Int) (k : Kind) : List (Int × String) := k.outputs.map fun s => (id, s.key)

/-- The links that a worker reads: the first one into each input. -/
def reads (g : Graph Int) (id : Int) (k : Kind) : List (Link Int) :=
  (k.inputs.map Socket.key).filterMap (g.firstLink? id)

/-- The output that a link reads. -/
def place (l : Link Int) : Int × String := (l.source, l.output)

/-- The most that a node adds to an evaluation. -/
def nodeBound : Nat := Kind.mostAdded + 2 * 4

/-- What a node added to an evaluation: new statements and values, in place of the values it read.
-/
structure Bounded (e : Evaluation Int) (id : Int) (k : Kind) (added : List Term) : Prop where
  hosts : e.graph.Hosts id k
  builtin : k ∈ Registry.builtinKinds
  origin : ∀ key f, e.output? id key = some f → ∀ t ∈ f.statements, t ∈ added ∨
    ∃ l ∈ e.graph.links, l.target = id ∧
      ∃ f', e.output? l.source l.output = some f' ∧ t ∈ f'.statements
  light : ∀ key f, e.output? id key = some f → f.value.Light
  small : ∀ s ∈ k.outputs, 1 < e.fanOut id s.key → ∀ t, e.value? (id, s.key) = some t → t.size ≤ 5
  cost : sizeAll added + sizeAll ((places id k).filterMap e.value?) ≤
    nodeBound + sizeAll ((reads e.graph id k).filterMap fun l => e.value? (place l))

theorem builtin_counts : ∀ k ∈ Registry.builtinKinds,
    (k.inputs.map Socket.key).Nodup ∧ k.inputs.length ≤ 4 ∧ k.outputs.length ≤ 4 := by
  simp only [Registry.builtinKinds, List.forall_mem_cons, List.not_mem_nil, false_implies,
    implies_true, and_true]
  decide

theorem bounded_of_recorded {n : Node Int} (sound : e.graph.Sound)
    (builtin : e.graph.registry = .builtin) (recorded : e.Recorded id n k inputs produced)
    (fed : ∀ l ∈ e.graph.links, l.target = id →
      ∀ key f, e.output? l.source key = some f → f.value.Light) :
    ∃ k added, Bounded e id k added := by
  have isBuiltin : k ∈ Registry.builtinKinds := recorded.hosts.builtin builtin
  have first := first?_of_inputsFor sound recorded.hosts recorded.collected
  have arrived : ∀ key f, Inputs.first? inputs key = some f → ∃ l ∈ e.graph.links, l.target = id ∧
      e.output? l.source l.output = some f := by
    intro key f found
    rw [first key] at found
    obtain ⟨l, leads, given⟩ := Option.bind_eq_some_iff.mp found
    obtain ⟨inside, target, -⟩ := Graph.mem_linksInto.mp (List.mem_of_head? leads)
    exact ⟨l, inside, target, given⟩
  obtain ⟨turn, worked⟩ := recorded.worked
  obtain ⟨k', accepted, valid⟩ := sound.accepts n recorded.member
  obtain rfl : k' = k := by simpa [accepted] using recorded.kind
  obtain ⟨added, adds⟩ := Kind.adds_builtin isBuiltin valid (fun key f found => by
    obtain ⟨l, inside, target, given⟩ := arrived key f found
    exact fed l inside target l.output f given) worked
  obtain ⟨more, adds', small⟩ :=
    adds_bindShared e id (Kind.builtin_sockets _ isBuiltin).1 adds
  obtain ⟨-, -, few⟩ := builtin_counts _ isBuiltin
  refine ⟨_, added ++ more, recorded.hosts, isBuiltin, ?_, ?_, ?_, ?_⟩
  · intro key f found t member
    rw [recorded.output?_eq] at found
    refine (adds'.origin key f found t member).imp_right ?_
    rintro ⟨input, f', given, inside⟩
    obtain ⟨l, within, target, stands⟩ := arrived input f' given
    exact ⟨l, within, target, f', stands, inside⟩
  · intro key f found
    rw [recorded.output?_eq] at found
    exact adds'.light key f found
  · intro s member several t found
    obtain ⟨f, given, rfl⟩ := Option.map_eq_some_iff.mp found
    rw [recorded.output?_eq] at given
    exact small s member several f given
  · have given : Kind.valuesOn (k'.outputs.map Socket.key) (e.bindShared id k' produced) =
        (places id k').filterMap e.value? := by
      rw [Kind.valuesOn, places, List.filterMap_map, List.filterMap_map]
      exact List.filterMap_congr fun s _ => by
        rw [Function.comp_apply, Function.comp_apply, value?, recorded.output?_eq]
    have read : Kind.firstValues (k'.inputs.map Socket.key) inputs =
        (reads e.graph id k').filterMap fun l => e.value? (place l) := by
      rw [Kind.firstValues, reads, List.filterMap_filterMap]
      refine List.filterMap_congr fun key _ => ?_
      rw [first, Option.map_bind]
      rfl
    have cost := adds'.cost
    rw [given, read] at cost
    unfold nodeBound
    omega

theorem mem_reads {g : Graph Int} {l : Link Int} (member : l ∈ reads g id k) :
    l ∈ g.links ∧ l.target = id := by
  obtain ⟨key, _, found⟩ := List.mem_filterMap.mp member
  obtain ⟨inside, target, _⟩ := Graph.mem_linksInto.mp (List.mem_of_head? found)
  exact ⟨inside, target⟩

theorem nodup_reads (g : Graph Int) (id : Int) (keys : (k.inputs.map Socket.key).Nodup) :
    (reads g id k).Nodup := by
  refine keys.filterMap fun key key' l found found' => ?_
  obtain ⟨_, _, input⟩ := Graph.mem_linksInto.mp (List.mem_of_head? found)
  obtain ⟨_, _, input'⟩ := Graph.mem_linksInto.mp (List.mem_of_head? found')
  exact input.symm.trans input'

/-- An output that is read once leaves one link to read it. -/
theorem eq_of_fanOut_le_one {l l' : Link Int} (once : e.fanOut l.source l.output ≤ 1)
    (inside : l ∈ e.graph.links) (inside' : l' ∈ e.graph.links) (live : l.target ∈ e.live)
    (live' : l'.target ∈ e.live) (same : place l = place l') : l = l' := by
  have reader : ∀ r ∈ e.graph.links, place r = place l → r.target ∈ e.live →
      r ∈ e.graph.links.filter fun r =>
        r.source == l.source && r.output == l.output && e.live.contains r.target := by
    intro r within same live
    obtain ⟨source, output⟩ := Prod.mk.inj same
    exact List.mem_filter.mpr ⟨within, by simp [source, output, live]⟩
  have first := reader l inside rfl live
  have second := reader l' inside' same.symm live'
  rw [fanOut, List.countP_eq_length_filter] at once
  generalize e.graph.links.filter _ = readers at once first second
  rcases readers with _ | ⟨r, _ | ⟨r', rest⟩⟩
  · cases first
  · rw [List.mem_singleton.mp first, List.mem_singleton.mp second]
  · simp at once

theorem length_flatMap_le {α β : Type} {xs : List α} {f : α → List β} {bound : Nat}
    (each : ∀ x ∈ xs, (f x).length ≤ bound) : (xs.flatMap f).length ≤ bound * xs.length := by
  induction xs with
  | nil => simp
  | cons x xs ih =>
    have here := each x (by simp)
    have rest := ih fun y member => each y (by simp [member])
    rw [List.flatMap_cons, List.length_append, List.length_cons, Nat.mul_succ]
    omega

/-- What all nodes together added. A value that one link reads is used up by its reader, and what
several links read is small. -/
theorem sizeAll_added_le {k : Int → Kind} {added : Int → List Term}
    (bounded : ∀ id ∈ e.live, Bounded e id (k id) (added id)) (nodup : e.live.Nodup)
    (sound : e.graph.Sound)
    (closed : ∀ l ∈ e.graph.links, l.target ∈ e.live → l.source ∈ e.live) :
    sizeAll (e.live.flatMap added) ≤ (nodeBound + 5 * 4) * e.live.length := by
  let links := e.live.flatMap fun id => reads e.graph id (k id)
  let outs := e.live.flatMap fun id => places id (k id)
  let once (l : Link Int) : Bool := decide (e.fanOut l.source l.output ≤ 1)
  let read (l : Link Int) : Option Term := e.value? (place l)
  have inside : ∀ l ∈ links, l ∈ e.graph.links ∧ l.target ∈ e.live := by
    intro l member
    obtain ⟨id, live, found⟩ := List.mem_flatMap.mp member
    obtain ⟨within, rfl⟩ := mem_reads found
    exact ⟨within, live⟩
  have declared : ∀ l ∈ links, ∃ o ∈ (k l.source).outputs, o.key = l.output := by
    intro l member
    obtain ⟨within, live⟩ := inside l member
    obtain ⟨k', _, o, _, hosts, _, found, _⟩ := sound.joins l within
    obtain rfl := hosts.kind_eq sound (bounded l.source (closed l within live)).hosts
    exact ⟨o, List.mem_of_find?_eq_some found, by simpa using List.find?_some found⟩
  have total : sizeAll (e.live.flatMap added) + sizeAll (outs.filterMap e.value?) ≤
      nodeBound * e.live.length + sizeAll (links.filterMap read) := by
    rw [List.filterMap_flatMap, List.filterMap_flatMap]
    exact sizeAll_flatMap_le fun id member => (bounded id member).cost
  have split : sizeAll (links.filterMap read) = sizeAll ((links.filter once).filterMap read) +
      sizeAll ((links.filter fun l => !once l).filterMap read) := by
    rw [← sizeAll_append, ← List.filterMap_append]
    exact (sizeAll_perm ((List.filter_append_perm once links).filterMap read)).symm
  have single : sizeAll ((links.filter once).filterMap read) ≤
      sizeAll (outs.filterMap e.value?) := by
    have nodupLinks : links.Nodup := by
      refine List.nodup_flatMap.mpr ⟨fun id member => ?_, nodup.imp fun apart l first second => ?_⟩
      · exact nodup_reads _ id (builtin_counts _ (bounded id member).builtin).1
      · exact apart ((mem_reads first).2.symm.trans (mem_reads second).2)
    have distinct : ((links.filter once).map place).Nodup := by
      refine List.Nodup.map_on (fun l member l' member' same => ?_) (nodupLinks.filter once)
      obtain ⟨here, single⟩ := List.mem_filter.mp member
      obtain ⟨within, live⟩ := inside l here
      obtain ⟨within', live'⟩ := inside l' (List.mem_filter.mp member').1
      exact eq_of_fanOut_le_one (of_decide_eq_true single) within within' live live' same
    have subset : (links.filter once).map place ⊆ outs := by
      intro p member
      obtain ⟨l, found, rfl⟩ := List.mem_map.mp member
      have here := (List.mem_filter.mp found).1
      obtain ⟨within, live⟩ := inside l here
      obtain ⟨o, isOutput, key⟩ := declared l here
      exact List.mem_flatMap.mpr ⟨l.source, closed l within live,
        List.mem_map.mpr ⟨o, isOutput, by rw [key]; rfl⟩⟩
    have bound := sizeAll_filterMap_le_of_subset distinct subset e.value?
    rwa [List.filterMap_map] at bound
  have several : sizeAll ((links.filter fun l => !once l).filterMap read) ≤
      5 * (4 * e.live.length) := by
    have each : ∀ t ∈ (links.filter fun l => !once l).filterMap read, t.size ≤ 5 := by
      intro t member
      obtain ⟨l, found, value⟩ := List.mem_filterMap.mp member
      obtain ⟨here, again⟩ := List.mem_filter.mp found
      obtain ⟨within, live⟩ := inside l here
      obtain ⟨o, isOutput, key⟩ := declared l here
      refine (bounded l.source (closed l within live)).small o isOutput ?_ t (key ▸ value)
      simpa [once, key] using again
    have count : links.length ≤ 4 * e.live.length := by
      refine length_flatMap_le fun id member => ?_
      obtain ⟨-, few, -⟩ := builtin_counts _ (bounded id member).builtin
      exact Nat.le_trans (List.length_filterMap_le _ _) (by simpa using few)
    calc sizeAll ((links.filter fun l => !once l).filterMap read)
        ≤ 5 * ((links.filter fun l => !once l).filterMap read).length := sizeAll_le_mul each
      _ ≤ 5 * links.length := Nat.mul_le_mul_left 5
          (Nat.le_trans (List.length_filterMap_le _ _) (List.length_filter_le _ _))
      _ ≤ 5 * (4 * e.live.length) := Nat.mul_le_mul_left 5 count
  rw [Nat.add_mul]
  omega

end Counting

end Evaluation

/-- No statement of a finished fragment stands twice. -/
theorem Fragment.Scoped.nodup_complete {c : List Definition} {f : Fragment} (scope : Scoped c f) :
    (f.complete [.commit f.value]).statements.Nodup := by
  have given : f.statements.Nodup := by
    rw [scope.only]
    exact (List.Nodup.of_map _ scope.nodup).map Definition.toTerm_injective
  refine given.append (List.nodup_singleton _) fun t member last => ?_
  rw [scope.only] at member
  obtain ⟨d, _, rfl⟩ := List.mem_map.mp member
  cases List.mem_singleton.mp last

namespace Graph

variable {g : Graph Int}

/-- A finished fragment has a bounded size for each node that takes part. -/
theorem Evaluated.sizeAll_le {sink : Int} {f : Fragment} {e : Evaluation Int}
    (evaluated : g.Evaluated sink f e) (sound : g.Sound) (builtin : g.registry = .builtin)
    (acyclic : g.Acyclic) (nodup : f.statements.Nodup) :
    sizeAll f.statements ≤ (Evaluation.nodeBound + 5 * 4) * e.live.length := by
  obtain rfl := evaluated.graph_eq
  have each : ∀ id ∈ e.live, ∃ k added, Evaluation.Bounded e id k added := by
    refine evaluated.induction acyclic fun id member fed => ?_
    obtain ⟨n, k, inputs, produced, recorded⟩ := evaluated.recorded id member
    refine Evaluation.bounded_of_recorded sound builtin recorded fun l inside target => ?_
    obtain ⟨_, _, bounded⟩ := fed l inside target
    exact bounded.light
  have : Inhabited Kind := ⟨Kind.canvas⟩
  choose! k added bounded using each
  have closed : ∀ l ∈ e.graph.links, l.target ∈ e.live → l.source ∈ e.live := by
    intro l inside live
    exact (evaluated.live _).mpr (.head ⟨l, inside, rfl, rfl⟩ ((evaluated.live _).mp live))
  -- Every statement was added by some node.
  have origin : ∀ id ∈ e.live, ∀ key f, e.output? id key = some f →
      f.statements ⊆ e.live.flatMap added := by
    refine evaluated.induction acyclic fun id member fed key f found t inside => ?_
    rcases (bounded id member).origin key f found t inside
      with new | ⟨l, within, target, f', given, earlier⟩
    · exact List.mem_flatMap.mpr ⟨id, member, new⟩
    · exact fed l within target l.output f' given earlier
  calc sizeAll f.statements
      ≤ sizeAll (e.live.flatMap added) := by
        refine sizeAll_le_of_subset nodup (origin sink ?_ _ f evaluated.finished)
        exact (evaluated.live sink).mpr .refl
    _ ≤ (Evaluation.nodeBound + 5 * 4) * e.live.length :=
        Evaluation.sizeAll_added_le bounded evaluated.nodup sound closed

/-- The most terms that a program has for each node that takes part. -/
def termsPerNode : Nat := 2 * (Evaluation.nodeBound + 5 * 4)

/-- The program for a sink of a graph has at most a fixed count of terms for each node that takes
part, whatever reads whatever, if all edits that made the graph were accepted. -/
theorem length_walkAll_statements_le (target : Target) {edits : List Edit}
    (accepted : Graph.runAccepted {} edits = .ok g) (acyclic : g.Acyclic) {selector : Option Int}
    {sink : Int} (selects : g.Selects selector sink) :
    ∃ f p text nodes, ∃ live : List Int, (g.build (selector.map .int) false).outcome = .ok f ∧
      Program.ofStatements f.statements = .ok p ∧ p.source target = .ok text ∧
      (g.evaluate target (selector.map .int) false).outcome = .ok text ∧
      Term.walkAll p.statements = .ok nodes ∧ live.Nodup ∧
      (∀ id, id ∈ live ↔ g.LeadsTo id sink) ∧ nodes.length ≤ termsPerNode * live.length := by
  obtain ⟨c, f, p, compiled⟩ := exists_compiled accepted acyclic selects
  obtain ⟨text, source, evaluated⟩ := compiled.source target
  obtain ⟨rfl, -⟩ := runAccepted_eq_ok (by simp [Graph.ids]) accepted
  have sound : (Graph.run {} edits).Sound := sound_run (.empty _ _) edits
  have builtin : (Graph.run {} edits).registry = .builtin := registry_run {} edits
  obtain ⟨n, selected, rfl⟩ := selectSink_eq_ok sound selects
  obtain ⟨e, record⟩ :=
    exists_evaluated sound acyclic selected selects.isSink.mem_ids compiled.built
  have size : sizeAll p.statements ≤ termsPerNode * e.live.length := by
    have given := record.sizeAll_le sound builtin acyclic compiled.scope.nodup_complete
    have doubled := Program.sizeAll_statements_le compiled.made
    rw [termsPerNode, Nat.mul_assoc]
    omega
  obtain ⟨nodes, walked, count⟩ : ∃ nodes, Term.walkAll p.statements = .ok nodes ∧
      nodes.length ≤ sizeAll p.statements := by
    obtain ⟨lowered, ran, built⟩ := Program.built_of_ofStatements compiled.made
    have emittable := (Fragment.wellFormed_complete compiled.catalog compiled.scope).emittable ran
    exact Term.exists_walkAll fun t member =>
      Term.exists_walk_of_isStatement (emittable t (built.subset_statements member)).shape
  exact ⟨_, p, text, nodes, e.live, compiled.built, compiled.made, source, evaluated, walked,
    record.nodup, record.live, Nat.le_trans count size⟩

/-- A blur that is blended with itself again and again, so that each color is read twice. -/
def doubledBlur : List Edit :=
  let place (kind : String) : Edit := .add (.str kind) (.arr [.int 0, .int 0]) (.obj []) none
  let join (source target : Int) (input : String) : Edit :=
    .connect ⟨source, .str "color", target, .str input⟩
  [place "Box Blur", place "Blend Colors", place "Blend Colors", place "Blend Colors",
    place "Canvas", join 1 2 "colorA", join 1 2 "colorB", join 2 3 "colorA", join 2 3 "colorB",
    join 3 4 "colorA", join 3 4 "colorB", join 4 5 "color"]

theorem length_walkAll_statements_doubledBlur :
    ∃ g : Graph Int, Graph.runAccepted {} doubledBlur = .ok g ∧ g.Acyclic ∧ g.Selects none 5 ∧
      ∃ f p text nodes, ∃ live : List Int, (g.build none false).outcome = .ok f ∧
        Program.ofStatements f.statements = .ok p ∧ p.source .webgl = .ok text ∧
        (g.evaluate .webgl none false).outcome = .ok text ∧
        Term.walkAll p.statements = .ok nodes ∧ live.Nodup ∧
        (∀ id, id ∈ live ↔ g.LeadsTo id 5) ∧ nodes.length ≤ termsPerNode * live.length := by
  obtain ⟨accepted, acyclic, selects⟩ : Graph.runAccepted {} doubledBlur =
      .ok (Graph.run {} doubledBlur) ∧ (Graph.run {} doubledBlur).Acyclic ∧
      (Graph.run {} doubledBlur).Selects none 5 :=
    selects_of_ascending (by decide +kernel) (by decide +kernel) (by decide +kernel)
      (by decide +kernel)
  exact ⟨_, accepted, acyclic, selects,
    length_walkAll_statements_le .webgl accepted acyclic selects⟩

end Graph

end ShaderFlow
