import ShaderFlow.Proofs.Graph.Loading

set_option autoImplicit false

/-
A graph that edits lead to is given back by its document: the same nodes, by ascending id, and the
same links into every input. Loading adds each node with its data on top of the defaults of its
kind, which changes nothing, since the data was made in this way.
-/

namespace ShaderFlow.Graph

variable {P : Int → Prop} {g g' h : Graph Int}

section Nodes

/-- Every node's data comes from the defaults of its kind. -/
def Completed (g : Graph Int) : Prop := ∀ n ∈ g.nodes, g.Completes n

theorem Completed.change (completed : g.Completed) (change : Change P g g') : g'.Completed := by
  cases change with
  | added n readings fresh accepts completes =>
    intro m member
    rcases List.mem_append.mp member with before | last
    · exact completed m before
    · rw [List.mem_singleton.mp last]
      exact completes
  | removed id => exact fun n member => completed n (List.mem_filter.mp member).1
  | moved id position readings =>
    intro m member
    obtain ⟨n, inside, rfl⟩ := List.mem_map.mp member
    have completes := completed n inside
    split <;> exact completes
  | linked | unlinked => exact completed

theorem completed_run (registry : Registry) (edits : List Edit) :
    (run { registry } edits).Completed := by
  have steps : ∀ {g g' : Graph Int}, g.Completed → Changes (fun _ => True) g g' → g'.Completed := by
    intro g g' completed changes
    induction changes with
    | refl => exact completed
    | tail _ change ih => exact ih.change change
  suffices all : ∀ g : Graph Int, g.Completed → (g.run edits).Completed from
    all _ fun n member => absurd member List.not_mem_nil
  induction edits with
  | nil => exact fun g completed => completed
  | cons edit edits ih =>
    intro g completed
    refine ih _ ?_
    rcases g.changes_perform edit (P := fun _ => True) fun _ _ => trivial with changes | changes
    · exact steps completed changes
    · exact steps (fun n member => absurd member List.not_mem_nil) changes

/-- A node whose data is valid, and stays as it is when the defaults of its kind take it in. -/
def Restorable (g : Graph Int) (n : Node Int) : Prop :=
  ∃ k, g.registry.find? n.kind = some k ∧ k.validate (.obj n.data) = .ok () ∧
    Members.update k.defaultData (.obj n.data) = .ok n.data

/-- Where the defaults of each kind name no member twice, data made from them can be restored. -/
theorem Completes.restorable {n : Node Int} (completes : g.Completes n) (accepts : g.Accepts n)
    (distinct : ∀ k ∈ g.registry.kinds, (Members.names k.defaultData).Nodup) : g.Restorable n := by
  obtain ⟨k, found, valid⟩ := accepts
  obtain ⟨k', changes, found', updated⟩ := completes
  obtain rfl : k = k' := Option.some.inj (found.symm.trans found')
  have nodup := distinct k (List.mem_of_find?_eq_some found)
  exact ⟨k, found, valid, Members.update_of_extends (Members.extends_update nodup updated)⟩

theorem toInteger_label {n : Node Int} (writable : Writable n.id) :
    (Json.str n.label).toInteger = .ok n.id := by
  have short := (writable_iff n.id).mp writable
  unfold Json.integerBound at short
  have read : Text.readInteger n.label = .ok n.id := Text.readInteger_repr short
  rw [Json.toInteger, read]

theorem newNode_restorable {n : Node Int} (same : h.registry = g.registry)
    (restorable : g.Restorable n) (fresh : n.id ∉ h.ids) :
    h.newNode (.str n.kind) n.position.toJson (.obj n.data) (some n.id) = .ok n := by
  obtain ⟨k, found, valid, updated⟩ := restorable
  exact newNode_eq (same ▸ found) updated valid fresh rfl

/-- The entry of a node adds the node. -/
theorem loadNode_eq {n : Node Int} (same : h.registry = g.registry) (restorable : g.Restorable n)
    (fresh : n.id ∉ h.ids) (writable : Writable n.id) :
    (h.loadNode n.label (g.savedEntry n)).outcome =
      .ok { h with nodes := h.nodes ++ [n], readings := h.readings + 1 } := by
  have made := newNode_restorable same restorable fresh
  obtain ⟨k, found, _⟩ := restorable
  have entry := savedEntry_eq found
  have position : memberOr (g.savedEntry n) "position" (.arr [.int 0, .int 0]) =
      n.position.toJson := by rw [entry]; rfl
  have given : (g.savedEntry n).member "id" = .ok (.int n.id) := by rw [entry]; rfl
  refine loadNode_of_new given rfl (toInteger_label writable) (by rw [entry]; rfl)
    (by rw [entry]; rfl) ?_ writable
  rwa [position]

theorem loadNodes_eq {ns : List (Node Int)} (same : h.registry = g.registry)
    (restorable : ∀ n ∈ ns, g.Restorable n) (writable : ∀ n ∈ ns, Writable n.id)
    (nodup : ((h.nodes ++ ns).map (·.id)).Nodup) :
    (ns.map fun n => (n.label, g.savedEntry n)).foldlM
        (fun h (entry : String × Json) => (h.loadNode entry.1 entry.2).outcome) h =
      .ok { h with nodes := h.nodes ++ ns, readings := h.readings + ns.length } := by
  induction ns generalizing h with
  | nil => simp [pure, Except.pure]
  | cons n ns ih =>
    have fresh : n.id ∉ h.ids := by
      rw [List.map_append, List.map_cons] at nodup
      exact fun member => List.disjoint_of_nodup_append nodup member List.mem_cons_self
    have here := loadNode_eq same (restorable n List.mem_cons_self) fresh
      (writable n List.mem_cons_self)
    have rest := ih (h := { h with nodes := h.nodes ++ [n], readings := h.readings + 1 }) same
      (fun n member => restorable n (List.mem_cons_of_mem _ member))
      (fun n member => writable n (List.mem_cons_of_mem _ member)) (by simpa using nodup)
    rw [List.map_cons, List.foldlM_cons, here, Outcome.ok_bind, rest]
    simp only [List.append_assoc, List.singleton_append, List.length_cons, Except.ok.injEq,
      Graph.mk.injEq, true_and]
    omega

end Nodes

section Links

/-- The links into all nodes, by ascending id, input by input. -/
def savedLinks (g : Graph Int) : List (Link Int) := g.ascending.flatMap g.entering

theorem mem_entering {n : Node Int} {l : Link Int} :
    l ∈ g.entering n ↔ l ∈ g.links ∧ l.target = n.id ∧ l.input ∈ g.inputKeys n := by
  simp only [entering, List.mem_flatMap, mem_linksInto]
  constructor
  · rintro ⟨key, member, inside, target, rfl⟩
    exact ⟨inside, target, member⟩
  · rintro ⟨inside, target, member⟩
    exact ⟨l.input, member, inside, target, rfl⟩

/-- A link leads into a declared input of a node. -/
theorem Joins.exists_input {l : Link Int} (joins : g.Joins l) :
    ∃ n ∈ g.nodes, l.target = n.id ∧ l.input ∈ g.inputKeys n := by
  obtain ⟨_, k, _, i, _, ⟨n, member, target, found⟩, _, isInput, _⟩ := joins
  refine ⟨n, member, target.symm, ?_⟩
  have named : i.key = l.input := by simpa using List.find?_some isInput
  rw [inputKeys, found, Option.elim_some, mem_socketKeys, ← named]
  exact List.mem_map_of_mem (List.mem_of_find?_eq_some isInput)

/-- The saved links are the links of the graph. -/
theorem mem_savedLinks (sound : g.Sound) (l : Link Int) : l ∈ g.savedLinks ↔ l ∈ g.links := by
  rw [savedLinks, List.mem_flatMap]
  constructor
  · rintro ⟨n, _, inside⟩
    exact (mem_entering.mp inside).1
  · intro inside
    obtain ⟨n, member, target, key⟩ := (sound.joins l inside).exists_input
    exact ⟨n, g.perm_ascending.mem_iff.mpr member, mem_entering.mpr ⟨inside, target, key⟩⟩

theorem nodup_inputKeys (g : Graph Int) (n : Node Int) : (g.inputKeys n).Nodup := by
  unfold inputKeys
  cases g.registry.find? n.kind with
  | none => exact .nil
  | some k => exact nodup_socketKeys k.inputs

theorem nodup_entering (sound : g.Sound) (n : Node Int) : (g.entering n).Nodup := by
  refine List.nodup_flatMap.mpr ⟨fun key _ => sound.linksNodup.filter _, ?_⟩
  refine (g.nodup_inputKeys n).imp fun different l first second => different ?_
  rw [← (mem_linksInto.mp first).2.2, (mem_linksInto.mp second).2.2]

theorem nodup_ascending (sound : g.Sound) : (g.ascending.map (·.id)).Nodup :=
  (g.perm_ascending.map _).nodup_iff.mpr sound.nodup

theorem nodup_savedLinks (sound : g.Sound) : g.savedLinks.Nodup := by
  refine List.nodup_flatMap.mpr ⟨fun n _ => nodup_entering sound n, ?_⟩
  refine (List.pairwise_map.mp (nodup_ascending sound)).imp fun different l first second =>
    different ?_
  rw [← (mem_entering.mp first).2.1, (mem_entering.mp second).2.1]

/-- The entries of nodes add the links into these. -/
theorem loadAllLinks {ns : List (Node Int)} {known : List (Declaration Int)}
    (accepts : ∀ n ∈ ns, g.Accepts n) (sound : h.Sound) (writable : ∀ id ∈ h.ids, Writable id)
    (nodup : (h.links ++ ns.flatMap g.entering).Nodup) (each : ∀ l ∈ g.links, h.Joins l)
    (declared : g.Declared known) :
    ∃ more, (ns.map fun n => (n.label, g.savedEntry n)).foldlM
        (fun state (entry : String × Json) => (loadLinks state entry.2).outcome) (h, known) =
      .ok ({ h with links := h.links ++ ns.flatMap g.entering }, more) ∧ g.Declared more := by
  induction ns generalizing h known with
  | nil => exact ⟨known, by simp [pure, Except.pure], declared⟩
  | cons n ns ih =>
    rw [List.flatMap_cons, ← List.append_assoc] at nodup
    have first := List.Nodup.of_append_left nodup
    obtain ⟨more, here, kept⟩ :=
      loadLinks_eq (accepts n List.mem_cons_self) sound writable first each
      declared
    have changed : Sound { h with links := h.links ++ g.entering n } :=
      sound.linkedAll first fun l member => each l (mem_entering.mp member).1
    obtain ⟨last, rest, all⟩ := ih (h := { h with links := h.links ++ g.entering n })
      (fun n member => accepts n (List.mem_cons_of_mem _ member)) changed writable nodup each kept
    refine ⟨last, ?_, all⟩
    rw [List.map_cons, List.foldlM_cons, here, Outcome.ok_bind, rest]
    simp

end Links

section Whole

/-- The nodes of the saved form, without links. -/
def placed (g : Graph Int) (readings : Nat) : Graph Int :=
  { registry := g.registry, nodes := g.ascending, readings := readings + g.ascending.length }

/-- The graph that the saved form describes. -/
def restored (g : Graph Int) (readings : Nat) : Graph Int :=
  { g.placed readings with links := g.savedLinks }

theorem mem_ascending (n : Node Int) : n ∈ g.ascending ↔ n ∈ g.nodes := g.perm_ascending.mem_iff

theorem sound_placed (sound : g.Sound) (readings : Nat) : (g.placed readings).Sound :=
  ⟨nodup_ascending sound, fun n member => sound.accepts n ((mem_ascending n).mp member),
    fun _ member => absurd member List.not_mem_nil, .nil⟩

theorem joins_placed {l : Link Int} (joins : g.Joins l) (readings : Nat) :
    (g.placed readings).Joins l := by
  have same : (g.placed readings).registry = g.registry := rfl
  have subset : g.nodes ⊆ (g.placed readings).nodes := fun n member => (mem_ascending n).mpr member
  exact joins.of_hosts (fun _ => hosts_of_subset same subset) (fun _ => hosts_of_subset same subset)

theorem documentNodes_savedForm (g : Graph Int) :
    documentNodes g.savedForm = .ok g.savedEntries := by
  have named : (!Document.currentId.startsWith Document.idHead) = false := by decide +kernel
  have id : Members.get? [("id", .str Document.currentId), ("nodes", .obj g.savedEntries)] "id" =
      some (.str Document.currentId) := rfl
  have nodes : Members.get? [("id", .str Document.currentId), ("nodes", .obj g.savedEntries)]
      "nodes" = some (.obj g.savedEntries) := rfl
  simp only [documentNodes, savedForm, id, nodes, Option.getD_some, named]
  rfl

/-- Loading the saved form gives the nodes in order, and the links as they are saved. -/
theorem load_savedForm (sound : g.Sound) (restorable : ∀ n ∈ g.nodes, g.Restorable n)
    (writable : ∀ id ∈ g.ids, Writable id) (readings : Nat) :
    (load { registry := g.registry, readings } g.savedForm).outcome =
    .ok (g.restored readings) := by
  have nodes : g.savedEntries.foldlM
      (fun (h : Graph Int) (entry : String × Json) => (h.loadNode entry.1 entry.2).outcome)
      { registry := g.registry, readings } = .ok (g.placed readings) :=
    loadNodes_eq (h := { registry := g.registry, readings }) rfl
      (fun n member => restorable n ((mem_ascending n).mp member))
      (fun n member => writable n.id (List.mem_map_of_mem ((mem_ascending n).mp member)))
      (nodup_ascending sound)
  have undeclared : g.Declared [] := fun d member => absurd member List.not_mem_nil
  obtain ⟨more, links, declared⟩ := loadAllLinks
    (fun n member => sound.accepts n ((mem_ascending n).mp member)) (sound_placed sound readings)
    (fun id member => writable id ((g.mem_ascending_ids id).mp member)) (nodup_savedLinks sound)
    (fun l member => joins_placed (sound.joins l member) readings) undeclared
  have missing : (more.filter fun d => !g.savedLinks.any d.declares) = [] := by
    refine List.filter_eq_nil_iff.mpr fun d member => ?_
    obtain ⟨l, present, rfl⟩ := declared d member
    have found : g.savedLinks.any (Declaration.ofLink l).declares = true :=
      List.any_eq_true.mpr ⟨l, (mem_savedLinks sound l).mpr present, Document.declares_iff.mpr rfl⟩
    rw [found]
    decide
  have linked : g.savedEntries.foldlM
      (fun state (entry : String × Json) => (loadLinks state entry.2).outcome)
      (g.placed readings, []) = .ok (g.restored readings, more) := links
  simp only [load, Logged.outcome_bind, Logged.outcome_liftM, documentNodes_savedForm,
    Outcome.ok_bind, Logged.outcome_foldlM, nodes, linked]
  rw [show (g.restored readings).links = g.savedLinks from rfl, missing]
  rfl

end Whole

section Restoration

/-- A graph holds the nodes of another one by ascending id, and the same links into each input in
the same order. -/
structure Restores (h g : Graph Int) : Prop where
  ids : h.ids.Perm g.ids
  nodes : ∀ id, h.find? id = g.find? id
  links : ∀ id input, h.linksInto id input = g.linksInto id input
  ascending : h.nodes.Pairwise fun a b => a.id < b.id

theorem flatMap_eq_of_mem {α β : Type} {xs : List α} {f : α → List β} {x : α} (nodup : xs.Nodup)
    (member : x ∈ xs) (others : ∀ y ∈ xs, y ≠ x → f y = []) : xs.flatMap f = f x := by
  obtain ⟨before, after, rfl⟩ := List.append_of_mem member
  have apart := List.nodup_middle.mp nodup
  have first : before.flatMap f = [] := by
    refine List.flatMap_eq_nil_iff.mpr fun y inside => others y (by simp [inside]) ?_
    rintro rfl
    exact (List.nodup_cons.mp apart).1 (by simp [inside])
  have last : after.flatMap f = [] := by
    refine List.flatMap_eq_nil_iff.mpr fun y inside => others y (by simp [inside]) ?_
    rintro rfl
    exact (List.nodup_cons.mp apart).1 (by simp [inside])
  rw [List.flatMap_append, List.flatMap_cons, first, last, List.nil_append, List.append_nil]

/-- Among the links into a node, those into one of its inputs are in order. -/
theorem filter_entering {n : Node Int} {input : String} (declared : input ∈ g.inputKeys n) :
    (g.entering n).filter (fun l => l.target == n.id && l.input == input) =
      g.linksInto n.id input := by
  rw [entering, List.filter_flatMap, flatMap_eq_of_mem (g.nodup_inputKeys n) declared]
  · simp only [linksInto, List.filter_filter, Bool.and_self]
  · intro key _ different
    refine List.filter_eq_nil_iff.mpr fun l inside fits => different ?_
    rw [← (mem_linksInto.mp inside).2.2]
    simp only [Bool.and_eq_true, beq_iff_eq] at fits
    exact fits.2

theorem linksInto_restored (sound : g.Sound) (readings : Nat) (id : Int) (input : String) :
    (g.restored readings).linksInto id input = g.linksInto id input := by
  by_cases declared : ∃ n ∈ g.nodes, id = n.id ∧ input ∈ g.inputKeys n
  · obtain ⟨n, member, rfl, key⟩ := declared
    rw [linksInto, restored, savedLinks, List.filter_flatMap,
      flatMap_eq_of_mem (nodup_ascending sound).of_map ((mem_ascending n).mpr member),
      filter_entering key]
    intro m inside different
    refine List.filter_eq_nil_iff.mpr fun l into fits => different ?_
    simp only [Bool.and_eq_true, beq_iff_eq] at fits
    refine List.inj_on_of_nodup_map (nodup_ascending sound) inside ((mem_ascending n).mpr member) ?_
    rw [← fits.1, (mem_entering.mp into).2.1]
  · have none : ∀ l ∈ g.links, ¬ (l.target == id && l.input == input) = true := by
      intro l inside fits
      simp only [Bool.and_eq_true, beq_iff_eq] at fits
      obtain ⟨n, member, target, key⟩ := (sound.joins l inside).exists_input
      exact declared ⟨n, member, fits.1.symm.trans target, fits.2 ▸ key⟩
    rw [linksInto, linksInto, List.filter_eq_nil_iff.mpr none, List.filter_eq_nil_iff]
    exact fun l inside => none l ((mem_savedLinks sound l).mp inside)

theorem sound_restored (sound : g.Sound) (readings : Nat) : (g.restored readings).Sound :=
  (sound_placed sound readings).linkedAll (nodup_savedLinks sound) fun l member =>
    joins_placed (sound.joins l ((mem_savedLinks sound l).mp member)) readings

theorem find?_restored (sound : g.Sound) (readings : Nat) (id : Int) :
    (g.restored readings).find? id = g.find? id := by
  by_cases present : ∃ n ∈ g.nodes, n.id = id
  · obtain ⟨n, member, rfl⟩ := present
    rw [find?_eq_some sound member,
      find?_eq_some (sound_restored sound readings) ((mem_ascending n).mpr member)]
  · have absent : ∀ n ∈ g.nodes, ¬ (n.id == id) = true := fun n member same =>
      present ⟨n, member, by simpa using same⟩
    rw [find?, find?, List.find?_eq_none.mpr absent, List.find?_eq_none]
    exact fun n member => absent n ((mem_ascending n).mp member)

theorem restores_restored (sound : g.Sound) (readings : Nat) :
    (g.restored readings).Restores g where
  ids := g.perm_ascending.map _
  nodes := find?_restored sound readings
  links := linksInto_restored sound readings
  ascending := by
    have distinct := List.pairwise_map.mp (nodup_ascending sound)
    refine (g.pairwise_ascending.and distinct).imp fun both => ?_
    omega

theorem ascending_restored (g : Graph Int) (readings : Nat) :
    (g.restored readings).ascending = g.ascending := by
  refine List.mergeSort_of_pairwise (g.pairwise_ascending.imp fun below => ?_)
  simpa using below

/-- Saving a restored graph keeps its links in order. -/
theorem savedLinks_restored (sound : g.Sound) (readings : Nat) :
    (g.restored readings).savedLinks = g.savedLinks := by
  have same : (g.restored readings).entering = g.entering := by
    funext n
    have links : (g.restored readings).linksInto n.id = g.linksInto n.id :=
      funext (linksInto_restored sound readings n.id)
    rw [entering, links]
    rfl
  rw [savedLinks, same, ascending_restored, savedLinks]

end Restoration

section RoundTrip

theorem ofDocument_savedForm (sound : g.Sound) (restorable : ∀ n ∈ g.nodes, g.Restorable n)
    (writable : ∀ id ∈ g.ids, Writable id) :
    (ofDocument g.registry g.savedForm).outcome = .ok (g.restored 0) := by
  have loaded := load_savedForm sound restorable writable 0
  simp only [ofDocument, replace, tryCatch, MonadExcept.tryCatch]
  split
  · rename_i same
    rw [← loaded, same]
  · rename_i same
    rw [same] at loaded
    cases loaded

theorem toDocument_of_writable (sound : g.Sound) (writable : ∀ id ∈ g.ids, Writable id) :
    g.toDocument = .ok g.savedForm := by
  rw [toDocument_eq sound]
  rcases writing_cases (g.ascending.map (·.id)) (.ok g.savedForm) with
    ⟨-, same⟩ | ⟨⟨id, member, long⟩, -⟩
  · exact same
  · exact absurd (writable id ((g.mem_ascending_ids id).mp member)) long

theorem toDocument_of_unwritable (sound : g.Sound) (long : ∃ id ∈ g.ids, ¬ Writable id) :
    g.toDocument = .error unwritable := by
  rw [toDocument_eq sound]
  rcases writing_cases (g.ascending.map (·.id)) (.ok g.savedForm) with ⟨short, -⟩ | ⟨-, same⟩
  · obtain ⟨id, member, long⟩ := long
    exact absurd (short id ((g.mem_ascending_ids id).mpr member)) long
  · exact same

/-- Loading the document of a graph restores the graph, and loading the document of what was loaded
makes the same links in the same order. -/
def RoundTrips (g : Graph Int) : Prop :=
  ∃ document h, g.toDocument = .ok document ∧ (ofDocument g.registry document).outcome = .ok h ∧
    h.Restores g ∧ ∃ again h', h.toDocument = .ok again ∧
      (ofDocument g.registry again).outcome = .ok h' ∧ h'.nodes = h.nodes ∧ h'.links = h.links

theorem roundTrips_of_writable (sound : g.Sound) (restorable : ∀ n ∈ g.nodes, g.Restorable n)
    (writable : ∀ id ∈ g.ids, Writable id) : g.RoundTrips := by
  have again := sound_restored sound 0
  have short : ∀ id ∈ (g.restored 0).ids, Writable id := fun id member =>
    writable id ((g.mem_ascending_ids id).mp member)
  have both : ∀ n ∈ (g.restored 0).nodes, (g.restored 0).Restorable n := fun n member =>
    restorable n ((mem_ascending n).mp member)
  exact ⟨g.savedForm, g.restored 0, toDocument_of_writable sound writable,
    ofDocument_savedForm sound restorable writable, restores_restored sound 0,
    (g.restored 0).savedForm, (g.restored 0).restored 0, toDocument_of_writable again short,
    ofDocument_savedForm again both short, ascending_restored g 0, savedLinks_restored sound 0⟩

/-- A graph that edits made is given back by its document exactly if all its ids can be written, and
has no document otherwise. Accepted edits alone lead to graphs that are given back. -/
theorem roundTrips_iff_writable (registry : Registry)
    (distinct : ∀ k ∈ registry.kinds, (Members.names k.defaultData).Nodup) (edits : List Edit) :
    (run { registry } edits).registry = registry ∧
      ((run { registry } edits).RoundTrips ↔ ∀ id ∈ (run { registry } edits).ids, Writable id) ∧
      ((∃ id ∈ (run { registry } edits).ids, ¬ Writable id) →
        (run { registry } edits).toDocument = .error unwritable) ∧
      ∀ g, runAccepted { registry } edits = .ok g → g = run { registry } edits ∧ g.RoundTrips := by
  have sound : (run { registry } edits).Sound := sound_run (.empty _ _) edits
  have same : (run { registry } edits).registry = registry := registry_run { registry } edits
  have restorable : ∀ n ∈ (run { registry } edits).nodes, (run { registry } edits).Restorable n :=
    fun n member => (completed_run registry edits n member).restorable (sound.accepts n member)
      (by rwa [same])
  refine ⟨same, ⟨?_, roundTrips_of_writable sound restorable⟩, toDocument_of_unwritable sound, ?_⟩
  · rintro ⟨document, _, saved, _⟩ id member
    by_contra long
    rw [toDocument_of_unwritable sound ⟨id, member, long⟩] at saved
    cases saved
  · intro g accepted
    obtain ⟨rfl, short⟩ :=
      runAccepted_eq_ok (fun _ member => absurd member List.not_mem_nil) accepted
    exact ⟨rfl, roundTrips_of_writable sound restorable short⟩

/-- A node in front of those with smaller ids, with two links into one input, one of them its own.
-/
def looped : List Edit :=
  [.add (.str "Invert Color") (.arr [.int 0, .int 0]) (.obj []) (some 7),
    .add (.str "Webcam") (.arr [.int 0, .int 0]) (.obj [("note", .int 1)]) (some 3),
    .connect (.ofLink ⟨7, "color", 7, "color"⟩), .connect (.ofLink ⟨3, "color", 7, "color"⟩)]

theorem roundTrips_iff_writable_looped :
    (∀ k ∈ Registry.builtin.kinds, (Members.names k.defaultData).Nodup) ∧
      (run {} looped).links.length = 2 ∧ (run {} looped).RoundTrips ∧
      (run {} longIds).toDocument = .error unwritable ∧ ¬ (run {} longIds).RoundTrips := by
  have distinct : ∀ k ∈ Registry.builtin.kinds, (Members.names k.defaultData).Nodup := by
    decide +kernel
  have accepted : (runAccepted {} looped).isOk = true := by decide +kernel
  have long : ∃ id ∈ (run {} longIds).ids, ¬ Writable id :=
    ⟨Json.integerBound, by decide +kernel, not_writable_integerBound⟩
  obtain ⟨-, iff, unsaved, -⟩ := roundTrips_iff_writable .builtin distinct longIds
  refine ⟨distinct, by decide +kernel, ?_, unsaved long, fun trips => ?_⟩
  · cases made : runAccepted {} looped with
    | error e =>
      rw [made] at accepted
      cases accepted
    | ok g =>
      obtain ⟨-, -, -, each⟩ := roundTrips_iff_writable .builtin distinct looped
      obtain ⟨rfl, trips⟩ := each g made
      exact trips
  · obtain ⟨id, member, unwritten⟩ := long
    exact unwritten (iff.mp trips id member)

end RoundTrip

end ShaderFlow.Graph
