import Mathlib.Data.List.Sort
import ShaderFlow.Proofs.Graph.Invariant
import ShaderFlow.Proofs.Graph.Socket
import ShaderFlow.Proofs.Json.Members
import ShaderFlow.Proofs.Text.Numeral

set_option autoImplicit false

/-
The saved form of a graph lists its nodes by ascending id, each with the links at its sockets.
Loading it adds the nodes in this order, then for each of them the links into its inputs, and finds
every link that is declared at an output among these.
-/

namespace ShaderFlow

namespace Outcome

/-- A loop whose steps all succeed ends, and what each of them keeps holds at its end. -/
theorem exists_foldlM {α β : Type} {P : β → Prop} {f : β → α → Except Error β} {xs : List α}
    (step : ∀ b, ∀ a ∈ xs, P b → ∃ b', f b a = .ok b' ∧ P b') {b : β} (start : P b) :
    ∃ b', xs.foldlM f b = .ok b' ∧ P b' := by
  induction xs generalizing b with
  | nil => exact ⟨b, rfl, start⟩
  | cons x xs ih =>
    obtain ⟨next, here, kept⟩ := step b x List.mem_cons_self start
    obtain ⟨last, there, holds⟩ :=
      ih (fun b a member => step b a (List.mem_cons_of_mem _ member)) kept
    exact ⟨last, by rw [List.foldlM_cons, here]; exact there, holds⟩

end Outcome

namespace Logged

theorem outcome_foldlM {α β : Type} (f : β → α → Logged β) (xs : List α) (b : β) :
    (xs.foldlM f b).outcome = xs.foldlM (fun b a => (f b a).outcome) b := by
  induction xs generalizing b with
  | nil => rfl
  | cons x xs ih =>
    rw [List.foldlM_cons, List.foldlM_cons, outcome_bind]
    congr 1
    funext b'
    exact ih b'

end Logged

namespace Graph

variable {g : Graph Int}

section Saving

/-- The nodes by ascending id. -/
def ascending (g : Graph Int) : List (Node Int) :=
  g.nodes.mergeSort fun a b => decide (a.id ≤ b.id)

theorem perm_ascending (g : Graph Int) : g.ascending.Perm g.nodes := List.mergeSort_perm _ _

theorem pairwise_ascending (g : Graph Int) : g.ascending.Pairwise fun a b => a.id ≤ b.id :=
  List.pairwise_mergeSort' (Order.Preimage Node.id (· ≤ ·)) g.nodes

/-- The entry of a node. -/
def savedEntry (g : Graph Int) (n : Node Int) : Json :=
  (g.registry.find? n.kind).elim .null (g.nodeEntry n)

/-- The entries of all nodes. -/
def savedEntries (g : Graph Int) : Members := g.ascending.map fun n => (n.label, g.savedEntry n)

def savedForm (g : Graph Int) : Json :=
  .obj [("id", .str Document.currentId), ("nodes", .obj g.savedEntries)]

theorem writing_cons {α : Type} (id : Int) (ids : List Int) (answer : Except Error α) :
    writing (id :: ids) answer = ((Json.int id).checkWritable >>= fun _ => writing ids answer) := by
  simp only [writing, List.map_cons, List.forM_eq_forM, List.forM_cons, bind_assoc]

theorem saveNodes_eq {ns : List (Node Int)} (registered : ∀ n ∈ ns, g.Accepts n) :
    (ns.mapM fun n => do
      let k ← g.kindOf n
      (NodeId.toJson n.id).checkWritable
      return (n.label, g.nodeEntry n k)) =
      writing (ns.map (·.id)) (.ok (ns.map fun n => (n.label, g.savedEntry n))) := by
  induction ns with
  | nil => rfl
  | cons n ns ih =>
    obtain ⟨k, found, _⟩ := registered n List.mem_cons_self
    have entry : g.savedEntry n = g.nodeEntry n k := by rw [savedEntry, found]; rfl
    have rest := ih fun n member => registered n (List.mem_cons_of_mem _ member)
    rw [List.mapM_cons, rest, kindOf_eq_ok found, Outcome.ok_bind, toJson_int, List.map_cons,
      writing_cons, bind_assoc, List.map_cons, entry]
    congr 1
    funext _
    rw [pure_bind, writing_bind]
    rfl

/-- A graph has a document unless the id of some node cannot be written. -/
theorem toDocument_eq (sound : g.Sound) :
    g.toDocument = writing (g.ascending.map (·.id)) (.ok g.savedForm) := by
  have registered : ∀ n ∈ g.ascending, g.Accepts n := fun n member =>
    sound.accepts n (g.perm_ascending.mem_iff.mp member)
  have sorted : g.sortedNodes = .ok g.ascending := rfl
  rw [toDocument, sorted, Outcome.ok_bind, saveNodes_eq registered, writing_bind]
  rfl

theorem mem_ascending_ids (g : Graph Int) (id : Int) :
    id ∈ g.ascending.map (·.id) ↔ id ∈ g.ids := by
  exact (g.perm_ascending.map _).mem_iff

end Saving

section Sockets

/-- The keys of sockets, each once. -/
def socketKeys (sockets : List Socket) : List String :=
  sockets.foldl (fun keys s => if s.key ∈ keys then keys else keys ++ [s.key]) []

theorem socketKeys_snoc (sockets : List Socket) (s : Socket) :
    socketKeys (sockets ++ [s]) =
      if s.key ∈ socketKeys sockets then socketKeys sockets else socketKeys sockets ++ [s.key] := by
  unfold socketKeys
  rw [List.foldl_append]
  rfl

theorem nodup_socketKeys (sockets : List Socket) : (socketKeys sockets).Nodup := by
  induction sockets using List.reverseRecOn with
  | nil => exact .nil
  | append_singleton sockets s ih =>
    rw [socketKeys_snoc]
    split
    · exact ih
    · rename_i fresh
      exact (List.perm_append_singleton _ _).nodup_iff.mpr (List.nodup_cons.mpr ⟨fresh, ih⟩)

theorem mem_socketKeys (sockets : List Socket) (key : String) :
    key ∈ socketKeys sockets ↔ key ∈ sockets.map Socket.key := by
  induction sockets using List.reverseRecOn with
  | nil => rfl
  | append_singleton sockets s ih =>
    rw [socketKeys_snoc, List.map_append, List.mem_append, ← ih]
    split
    · rename_i known
      refine ⟨.inl, fun either => either.elim id fun last => ?_⟩
      rw [List.mem_singleton.mp last]
      exact known
    · exact List.mem_append

/-- Members with the value that belongs to each name. -/
def valued (value : String → Json) (keys : List String) : Members := keys.map fun k => (k, value k)

theorem insert_valued (value : String → Json) (keys : List String) (key : String) :
    Members.insert (valued value keys) key (value key) =
      valued value (if key ∈ keys then keys else keys ++ [key]) := by
  induction keys with
  | nil => rfl
  | cons k keys ih =>
    by_cases here : k = key
    · simp [valued, Members.insert, here]
    · have apart : (k == key) = false := by simpa using here
      have other : key ≠ k := Ne.symm here
      show Members.insert ((k, value k) :: valued value keys) key (value key) = _
      rw [Members.insert, apart, if_neg (by decide), ih]
      by_cases there : key ∈ keys <;> simp [valued, there, other]

/-- The entries of sockets are those of their keys. -/
theorem socketEntries_eq (sockets : List Socket) (entries : String → List Json) :
    socketEntries sockets entries =
      .obj (valued (fun key => .obj [("connections", .arr (entries key))])
        (socketKeys sockets)) := by
  unfold socketEntries
  congr 1
  induction sockets using List.reverseRecOn with
  | nil => rfl
  | append_singleton sockets s ih =>
    rw [socketKeys_snoc, ← insert_valued, ← ih, List.map_append, Members.merge, List.foldl_append]
    rfl

/-- The keys of a node's inputs. -/
def inputKeys (g : Graph Int) (n : Node Int) : List String :=
  (g.registry.find? n.kind).elim [] fun k => socketKeys k.inputs

/-- The keys of a node's outputs. -/
def outputKeys (g : Graph Int) (n : Node Int) : List String :=
  (g.registry.find? n.kind).elim [] fun k => socketKeys k.outputs

/-- The links into a node, input by input. -/
def entering (g : Graph Int) (n : Node Int) : List (Link Int) :=
  (g.inputKeys n).flatMap (g.linksInto n.id)

/-- The entries of a node's inputs. -/
def savedInputs (g : Graph Int) (n : Node Int) : Members :=
  valued (fun key => .obj [("connections", .arr ((g.linksInto n.id key).map
    fun l => linkEntry l.source "output" l.output))]) (g.inputKeys n)

/-- The entries of a node's outputs. -/
def savedOutputs (g : Graph Int) (n : Node Int) : Members :=
  valued (fun key => .obj [("connections", .arr ((g.linksOutOf n.id key).map
    fun l => linkEntry l.target "input" l.input))]) (g.outputKeys n)

theorem savedEntry_eq {n : Node Int} {k : Kind} (found : g.registry.find? n.kind = some k) :
    g.savedEntry n =
      .obj [("id", .int n.id), ("name", .str n.kind), ("data", .obj n.data),
        ("inputs", .obj (g.savedInputs n)), ("outputs", .obj (g.savedOutputs n)),
        ("position", n.position.toJson)] := by
  rw [savedEntry, found, savedInputs, savedOutputs, inputKeys, outputKeys, found]
  simp only [Option.elim_some, nodeEntry, socketEntries_eq, lookup_inputsOf, lookup_outputsOf,
    toJson_int]

end Sockets

section Loading

theorem Hosts.exists_node {id : Int} {k : Kind} (hosts : g.Hosts id k) (sound : g.Sound) :
    ∃ n, g.node id = .ok n ∧ g.kindOf n = .ok k := by
  obtain ⟨n, member, rfl, found⟩ := hosts
  exact ⟨n, node_eq_ok_of_mem sound member, kindOf_eq_ok found⟩

/-- A link that fits is accepted as it is. -/
theorem newLink_ofLink (sound : g.Sound) {l : Link Int} (joins : g.Joins l) :
    g.newLink (.ofLink l) = .ok l := by
  obtain ⟨k, k', o, i, leaves, enters, isOutput, isInput, typed⟩ := joins
  obtain ⟨m, source, sourceKind⟩ := leaves.exists_node sound
  obtain ⟨n, target, targetKind⟩ := enters.exists_node sound
  have outputKey : o.key = l.output := by simpa using List.find?_some isOutput
  have inputKey : i.key = l.input := by simpa using List.find?_some isInput
  simp only [newLink, Declaration.ofLink, source, sourceKind, target, targetKind, Outcome.ok_bind,
    outputSocket, isOutput, inputSocket, isInput, if_pos typed, outputKey, inputKey]
  rfl

theorem connect_ofLink (sound : g.Sound) {l : Link Int} (joins : g.Joins l) (fresh : l ∉ g.links)
    (writable : ∀ id ∈ g.ids, Writable id) :
    (g.connect (.ofLink l)).1 = { g with links := g.links ++ [l] } ∧
      (g.connect (.ofLink l)).2.outcome = .ok l := by
  obtain ⟨added, reported⟩ := connect_of_fresh (newLink_ofLink sound joins) fresh
  refine ⟨added, reported.trans ?_⟩
  obtain ⟨_, _, _, _, ⟨m, inside, source, _⟩, ⟨n, inside', target, _⟩, _⟩ := joins
  rcases writing_cases [l.source, l.target] (.ok l) with ⟨-, same⟩ | ⟨⟨id, member, long⟩, -⟩
  · exact same
  · refine absurd (writable id ?_) long
    simp only [List.mem_cons, List.not_mem_nil, or_false] at member
    rcases member with rfl | rfl
    · exact List.mem_map.mpr ⟨m, inside, source⟩
    · exact List.mem_map.mpr ⟨n, inside', target⟩

theorem readLink_linkEntry (node : Int) {side : String} (socket : String) (other : side ≠ "node") :
    readLink (linkEntry node side socket) side = .ok (node, .str socket) := by
  have apart : (side == "node") = false := by simpa using other
  have id : (linkEntry node side socket).member "node" = .ok (.int node) := rfl
  have label : (linkEntry node side socket).member side = .ok (.str socket) := by
    simp [linkEntry, Json.member, Members.get?, List.lookup_cons, apart]
  rw [readLink, id, label]
  rfl

/-- Makes the link into an input that an entry declares. -/
def loadLink (g : Graph Int) (id : Int) (input : String) (entry : Json) : Logged (Graph Int) := do
  let (source, output) ← readLink entry "output"
  let (g, linked) := g.connect ⟨NodeId.ofInt source, output, NodeId.ofInt id, .str input⟩
  let _ ← linked
  return g

/-- Links that fit and are new are added in turn. -/
theorem loadInput_eq {links : List (Link Int)} {id : Int} {input : String} (sound : g.Sound)
    (writable : ∀ id ∈ g.ids, Writable id) (nodup : (g.links ++ links).Nodup)
    (each : ∀ l ∈ links, l.target = id ∧ l.input = input ∧ g.Joins l) :
    (g.loadInput id input (.obj [("connections",
      .arr (links.map fun l => linkEntry l.source "output" l.output))])).outcome =
      .ok { g with links := g.links ++ links } := by
  have items : ∀ entries : List Json, (g.loadInput id input (.obj [("connections",
      .arr entries)])).outcome =
        entries.foldlM (fun g link => (g.loadLink id input link).outcome) g := by
    intro entries
    rw [← Logged.outcome_foldlM]
    rfl
  rw [items]
  clear items
  induction links generalizing g with
  | nil => simp [pure, Except.pure]
  | cons l links ih =>
    obtain ⟨rfl, rfl, joins⟩ := each l List.mem_cons_self
    have fresh : l ∉ g.links := fun known =>
      List.disjoint_of_nodup_append nodup known List.mem_cons_self
    obtain ⟨linked, answered⟩ := connect_ofLink sound joins fresh writable
    have rest := ih (g := { g with links := g.links ++ [l] }) (sound.linked fresh joins) writable
      (by simpa using nodup) fun m member => each m (List.mem_cons_of_mem _ member)
    rw [List.map_cons, List.foldlM_cons]
    have here : (g.loadLink l.target l.input (linkEntry l.source "output" l.output)).outcome =
        .ok { g with links := g.links ++ [l] } := by
      simp only [loadLink, Logged.outcome_bind, Logged.outcome_liftM,
        readLink_linkEntry l.source l.output (by decide : "output" ≠ "node"), Outcome.ok_bind]
      show ((g.connect (.ofLink l)).2.outcome >>= fun _ => .ok (g.connect (.ofLink l)).1) = _
      rw [answered, linked]
      rfl
    rw [here, Outcome.ok_bind, rest]
    simp

theorem Sound.linkedAll {links : List (Link Int)} (sound : g.Sound)
    (nodup : (g.links ++ links).Nodup) (each : ∀ l ∈ links, g.Joins l) :
    Sound { g with links := g.links ++ links } :=
  ⟨sound.nodup, sound.accepts,
    fun l member => (List.mem_append.mp member).elim (sound.joins l) (each l), nodup⟩

/-- The links into all inputs of a node are added, input by input. -/
theorem loadInputs_eq {h : Graph Int} {id : Int} {keys : List String} (sound : h.Sound)
    (writable : ∀ id ∈ h.ids, Writable id)
    (nodup : (h.links ++ keys.flatMap (g.linksInto id)).Nodup) (each : ∀ l ∈ g.links, h.Joins l) :
    ((valued (fun key => .obj [("connections", .arr ((g.linksInto id key).map
        fun l => linkEntry l.source "output" l.output))]) keys).foldlM
      (fun h (entry : String × Json) => (h.loadInput id entry.1 entry.2).outcome) h) =
      .ok { h with links := h.links ++ keys.flatMap (g.linksInto id) } := by
  induction keys generalizing h with
  | nil => simp [valued, pure, Except.pure]
  | cons key keys ih =>
    rw [List.flatMap_cons, ← List.append_assoc] at nodup
    have here := loadInput_eq sound writable (List.Nodup.of_append_left nodup) fun l member =>
      have inside := mem_linksInto.mp member
      ⟨inside.2.1, inside.2.2, each l inside.1⟩
    have changed : Sound { h with links := h.links ++ g.linksInto id key } :=
      sound.linkedAll (List.Nodup.of_append_left nodup) fun l member =>
        each l (mem_linksInto.mp member).1
    have rest :=
      ih (h := { h with links := h.links ++ g.linksInto id key }) changed writable nodup each
    rw [valued, List.map_cons, List.foldlM_cons, here, Outcome.ok_bind]
    refine rest.trans ?_
    simp

/-- Only links of the graph are declared. -/
def Declared (g : Graph Int) (known : List (Declaration Int)) : Prop :=
  ∀ d ∈ known, ∃ l ∈ g.links, d = .ofLink l

theorem addDeclaration_declared {known : List (Declaration Int)} (declared : g.Declared known)
    {l : Link Int} (member : l ∈ g.links) :
    ∃ more, addDeclaration known (.ofLink l) = .ok more ∧ g.Declared more := by
  refine ⟨_, rfl, ?_⟩
  split
  · exact declared
  · intro d inside
    rcases List.mem_append.mp inside with before | last
    · exact declared d before
    · exact ⟨l, member, List.mem_singleton.mp last⟩

theorem loadOutput_declared {known : List (Declaration Int)} (declared : g.Declared known)
    (id : Int) (output : String) :
    ∃ more, loadOutput known id output (.obj [("connections", .arr ((g.linksOutOf id output).map
      fun l => linkEntry l.target "input" l.input))]) = .ok more ∧ g.Declared more := by
  refine Outcome.exists_foldlM ?_ declared
  intro known entry member declared
  obtain ⟨l, inside, rfl⟩ := List.mem_map.mp member
  simp only [linksOutOf, List.mem_filter, Bool.and_eq_true, beq_iff_eq] at inside
  obtain ⟨present, rfl, rfl⟩ := inside
  rw [readLink_linkEntry l.target l.input (by decide : "input" ≠ "node"), Outcome.ok_bind]
  exact addDeclaration_declared declared present

theorem loadOutputs_declared {known : List (Declaration Int)} (declared : g.Declared known)
    (n : Node Int) :
    ∃ more, (g.savedOutputs n).foldlM
      (fun known (entry : String × Json) => loadOutput known n.id entry.1 entry.2) known =
        .ok more ∧
      g.Declared more := by
  refine Outcome.exists_foldlM ?_ declared
  intro known entry member declared
  obtain ⟨key, _, rfl⟩ := List.mem_map.mp member
  exact loadOutput_declared declared n.id key

/-- The entry of a node adds the links into it and declares links of the graph. -/
theorem loadLinks_eq {h : Graph Int} {known : List (Declaration Int)} {n : Node Int}
    (accepts : g.Accepts n) (sound : h.Sound) (writable : ∀ id ∈ h.ids, Writable id)
    (nodup : (h.links ++ g.entering n).Nodup) (each : ∀ l ∈ g.links, h.Joins l)
    (declared : g.Declared known) :
    ∃ more, (loadLinks (h, known) (g.savedEntry n)).outcome =
      .ok ({ h with links := h.links ++ g.entering n }, more) ∧ g.Declared more := by
  obtain ⟨k, found, _⟩ := accepts
  have linked : (g.savedInputs n).foldlM
      (fun h (entry : String × Json) => (h.loadInput n.id entry.1 entry.2).outcome) h =
      .ok { h with links := h.links ++ g.entering n } := loadInputs_eq sound writable nodup each
  obtain ⟨more, gathered, kept⟩ := loadOutputs_declared declared n
  refine ⟨more, ?_, kept⟩
  have inputs : (memberOr (g.savedEntry n) "inputs" (.obj [])).membersOf =
      .ok (g.savedInputs n) := by
    rw [savedEntry_eq found]
    rfl
  have outputs : (memberOr (g.savedEntry n) "outputs" (.obj [])).membersOf =
      .ok (g.savedOutputs n) := by
    rw [savedEntry_eq found]
    rfl
  have id : (g.savedEntry n).member "id" = .ok (.int n.id) := by
    rw [savedEntry_eq found]
    rfl
  simp only [loadLinks, Logged.outcome_bind, Logged.outcome_liftM, id, inputs, outputs,
    Outcome.ok_bind, Logged.outcome_foldlM, Json.toInteger, linked, gathered]
  rfl

end Loading

end Graph

end ShaderFlow
