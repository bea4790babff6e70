import ShaderFlow.Proofs.Graph.Loading

set_option autoImplicit false

namespace ShaderFlow

open Outcome

namespace Document

open ShaderFlow.Graph

variable {g h : Graph Int}

section Nodes

theorem exists_toOwnNumber {v : Json} {x : Binary64} (reads : Reads v x) (tag : Nat) :
    ∃ y, v.toOwnNumber tag = .ok y := by
  obtain ⟨y, read, -⟩ := reads
  rw [Json.toOwnNumber, read, Outcome.ok_bind]
  split
  · exact ⟨_, rfl⟩
  · exact ⟨_, rfl⟩

theorem exists_position {v x y : Json} {p : Position} (pair : v.pair = .ok (x, y))
    (first : Reads x p.x) (second : Reads y p.y) (reading : Nat) :
    ∃ q, Position.ofJson reading v = .ok q := by
  obtain ⟨a, read⟩ := exists_toOwnNumber first (2 * reading)
  obtain ⟨b, read'⟩ := exists_toOwnNumber second (2 * reading + 1)
  refine ⟨⟨a, b⟩, ?_⟩
  simp only [Position.ofJson, pair, Outcome.ok_bind, read, read']
  rfl

/-- An entry that describes a new node adds one of this id and kind. -/
theorem exists_loadNode {n : Node Int} {entry : String × Json} (same : h.registry = g.registry)
    (describes : Describes g.registry entry n) (accepts : g.Accepts n) (fresh : n.id ∉ h.ids)
    (writable : Writable n.id) :
    ∃ position, (h.loadNode entry.1 entry.2).outcome = .ok { h with
      nodes := h.nodes ++ [{ n with position }], readings := h.readings + 1 } := by
  obtain ⟨key, named, kind, ⟨k, changes, found, data, merged⟩, x, y, pair, first, second⟩ :=
    describes
  obtain ⟨position, placed⟩ := exists_position pair first second h.readings
  refine ⟨position, ?_⟩
  have valid : k.validate (.obj n.data) = .ok () := by
    obtain ⟨k', found', valid⟩ := accepts
    obtain rfl : k = k' := Option.some.inj (found.symm.trans found')
    exact valid
  obtain ⟨v, given, read⟩ := Outcome.bind_eq_ok_iff.mp named
  have updated : Members.update k.defaultData (.obj changes) = .ok n.data := by
    rw [update_obj, merged]
  have made : h.newNode (.str n.kind) (memberOr entry.2 "position" (.arr [.int 0, .int 0]))
      (.obj changes) (some n.id) = .ok { n with position } :=
    newNode_eq (n := { n with position }) (same ▸ found) updated valid fresh placed
  exact loadNode_of_new (n := { n with position }) given read key kind data made writable

/-- What links depend on of a node. -/
def mark (n : Node Int) : Int × String := (n.id, n.kind)

theorem exists_loadNodes {entries : Members} {ns : List (Node Int)}
    (described : List.Forall₂ (Describes g.registry) entries ns) (accepts : ∀ n ∈ ns, g.Accepts n)
    (writable : ∀ n ∈ ns, Writable n.id) (same : h.registry = g.registry)
    (nodup : (h.ids ++ ns.map Node.id).Nodup) :
    ∃ h', entries.foldlM (fun (h : Graph Int) (entry : String × Json) =>
        (h.loadNode entry.1 entry.2).outcome) h = .ok h' ∧
      h'.registry = h.registry ∧ h'.links = h.links ∧
      h'.nodes.map mark = h.nodes.map mark ++ ns.map mark := by
  induction described generalizing h with
  | nil => exact ⟨h, rfl, rfl, rfl, by simp⟩
  | @cons entry n entries ns describes _ ih =>
    have fresh : n.id ∉ h.ids := fun member =>
      List.disjoint_of_nodup_append nodup member List.mem_cons_self
    obtain ⟨position, here⟩ := exists_loadNode same describes (accepts n List.mem_cons_self) fresh
      (writable n List.mem_cons_self)
    obtain ⟨h', there, registry, links, nodes⟩ := ih
      (fun n member => accepts n (List.mem_cons_of_mem _ member))
      (fun n member => writable n (List.mem_cons_of_mem _ member))
      (h := { h with nodes := h.nodes ++ [{ n with position }], readings := h.readings + 1 }) same
      (by simpa [Graph.ids] using nodup)
    refine ⟨h', by rw [List.foldlM_cons, here, Outcome.ok_bind, there], registry, links, ?_⟩
    rw [nodes]
    simp [mark]

end Nodes

section Links

/-- A graph under construction has the nodes of another one, and some of its links. -/
structure Building (g h : Graph Int) : Prop where
  sound : h.Sound
  registry : h.registry = g.registry
  nodes : h.nodes.map mark = g.nodes.map mark
  links : h.links ⊆ g.links

theorem Building.ids_eq (building : Building g h) : h.ids = g.ids := by
  have ids : ∀ k : Graph Int, k.ids = (k.nodes.map mark).map Prod.fst := by
    intro k
    rw [List.map_map]
    rfl
  rw [ids, ids, building.nodes]

theorem Building.hosts (building : Building g h) {id : Int} {k : Kind} (hosts : g.Hosts id k) :
    h.Hosts id k := by
  obtain ⟨n, member, rfl, found⟩ := hosts
  have marked : mark n ∈ h.nodes.map mark := building.nodes ▸ List.mem_map_of_mem member
  obtain ⟨m, inside, same⟩ := List.mem_map.mp marked
  obtain ⟨id, kind⟩ := Prod.ext_iff.mp same
  exact ⟨m, inside, id, by rw [show m.kind = n.kind from kind, building.registry, found]⟩

/-- A link of the whole graph is accepted. -/
theorem Building.connect (building : Building g h) (sound : g.Sound)
    (writable : ∀ id ∈ g.ids, Writable id) {l : Link Int} (member : l ∈ g.links) :
    (h.connect (.ofLink l)).2.outcome = .ok l ∧ Building g (h.connect (.ofLink l)).1 := by
  have joins : h.Joins l := (sound.joins l member).of_hosts (fun _ => building.hosts)
    (fun _ => building.hosts)
  have made := newLink_ofLink building.sound joins
  by_cases known : l ∈ h.links
  · have same : h.connect (.ofLink l) = (h, pure l) := by
      simp only [Graph.connect, made, if_pos ((any_same_iff _ _).mpr known)]
    rw [same]
    exact ⟨rfl, building⟩
  · obtain ⟨added, answered⟩ := connect_ofLink building.sound joins known
      (building.ids_eq ▸ writable)
    refine ⟨answered, ?_⟩
    rw [added]
    refine ⟨building.sound.linked known joins, building.registry, building.nodes, ?_⟩
    intro m inside
    rcases List.mem_append.mp inside with before | last
    · exact building.links before
    · rw [List.mem_singleton.mp last]
      exact member

/-- What an entry of a socket lists was read item by item. -/
theorem listed_eq_ok {side key : String} {socket : Json} {links : List Listed}
    (success : listed side key socket = .ok links) :
    ∃ v items, socket.member "connections" = .ok v ∧ v.items = .ok items ∧
      ∀ item ∈ items, ∃ l ∈ links, l.key = key ∧ readLink item side = .ok (l.node, l.name) := by
  obtain ⟨v, found, rest⟩ := Outcome.bind_eq_ok_iff.mp success
  obtain ⟨items, listing, each⟩ := Outcome.bind_eq_ok_iff.mp rest
  refine ⟨v, items, found, listing, fun item member => ?_⟩
  obtain ⟨l, inside, made⟩ := Outcome.mapM_mem each member
  obtain ⟨other, read, same⟩ := Outcome.bind_eq_ok_iff.mp made
  cases same
  exact ⟨_, inside, rfl, read⟩

/-- The links that an entry of an input lists are made. -/
theorem Building.loadInput (building : Building g h) (sound : g.Sound)
    (writable : ∀ id ∈ g.ids, Writable id) {id : Int} {input : String} {socket : Json}
    {links : List Listed} (success : listed "output" input socket = .ok links)
    (each : ∀ l ∈ links, Holds g (l.into id)) :
    ∃ h', (h.loadInput id input socket).outcome = .ok h' ∧ Building g h' := by
  obtain ⟨v, items, found, listing, reads⟩ := listed_eq_ok success
  simp only [Graph.loadInput, Logged.outcome_bind, Logged.outcome_liftM, found, listing,
    Outcome.ok_bind, Logged.outcome_foldlM]
  refine Outcome.exists_foldlM ?_ building
  intro h item member building
  obtain ⟨l, inside, rfl, read⟩ := reads item member
  obtain ⟨link, present, same⟩ := each l inside
  have declared : (⟨l.node, l.name, id, .str l.key⟩ : Declaration Int) = .ofLink link := same
  obtain ⟨answered, building'⟩ := building.connect sound writable present
  refine ⟨_, ?_, building'⟩
  rw [read, Outcome.ok_bind]
  show ((h.connect ⟨l.node, l.name, id, .str l.key⟩).2.outcome >>= fun _ =>
    .ok (h.connect ⟨l.node, l.name, id, .str l.key⟩).1) = _
  rw [declared, answered]
  rfl

theorem exists_loadOutput {known : List (Declaration Int)} (declared : g.Declared known) {id : Int}
    {output : String} {socket : Json} {links : List Listed}
    (success : listed "input" output socket = .ok links)
    (each : ∀ l ∈ links, Holds g (l.outOf id)) :
    ∃ more, loadOutput known id output socket = .ok more ∧ g.Declared more := by
  obtain ⟨v, items, found, listing, reads⟩ := listed_eq_ok success
  simp only [loadOutput, found, listing, Outcome.ok_bind]
  refine Outcome.exists_foldlM ?_ declared
  intro known item member declared
  obtain ⟨l, inside, rfl, read⟩ := reads item member
  obtain ⟨link, present, same⟩ := each l inside
  rw [read, Outcome.ok_bind]
  have whole : (⟨id, .str l.key, l.node, l.name⟩ : Declaration Int) = .ofLink link := same
  show ∃ more, addDeclaration known ⟨id, .str l.key, l.node, l.name⟩ = .ok more ∧ g.Declared more
  rw [whole]
  exact addDeclaration_declared declared present

/-- What an entry lists was read socket by socket. -/
theorem listedAt_eq_ok {sockets side : String} {entry : Json} {links : List Listed}
    (success : listedAt sockets side entry = .ok links) :
    ∃ members, (memberOr entry sockets (.obj [])).membersOf = .ok members ∧
      ∀ m ∈ members, ∃ part, listed side m.1 m.2 = .ok part ∧ part ⊆ links := by
  obtain ⟨members, found, rest⟩ := Outcome.bind_eq_ok_iff.mp success
  obtain ⟨lists, read, same⟩ := Outcome.bind_eq_ok_iff.mp rest
  cases same
  refine ⟨members, found, fun m member => ?_⟩
  obtain ⟨part, inside, here⟩ := Outcome.mapM_mem read member
  exact ⟨part, here, fun l within => List.mem_flatten.mpr ⟨part, inside, within⟩⟩

theorem Building.loadLinks (building : Building g h) (sound : g.Sound)
    (writable : ∀ id ∈ g.ids, Writable id) {known : List (Declaration Int)}
    (declared : g.Declared known) {entry : Json} {stated : Declarations}
    (success : declarations entry = .ok stated) (inputs : ∀ d ∈ stated.inputs, Holds g d)
    (outputs : ∀ d ∈ stated.outputs, Holds g d) :
    ∃ state, (Graph.loadLinks (h, known) entry).outcome = .ok state ∧ Building g state.1 ∧
      g.Declared state.2 := by
  obtain ⟨id, named, rest⟩ := Outcome.bind_eq_ok_iff.mp success
  obtain ⟨ins, listedIns, rest⟩ := Outcome.bind_eq_ok_iff.mp rest
  obtain ⟨outs, listedOuts, same⟩ := Outcome.bind_eq_ok_iff.mp rest
  cases same
  obtain ⟨v, given, read⟩ := Outcome.bind_eq_ok_iff.mp named
  obtain ⟨members, found, each⟩ := listedAt_eq_ok listedIns
  obtain ⟨members', found', each'⟩ := listedAt_eq_ok listedOuts
  obtain ⟨h', linked, building'⟩ : ∃ h', members.foldlM (fun (h : Graph Int) (m : String × Json) =>
      (h.loadInput id m.1 m.2).outcome) h = .ok h' ∧ Building g h' := by
    refine Outcome.exists_foldlM ?_ building
    intro h m member building
    obtain ⟨part, listed, within⟩ := each m member
    exact building.loadInput sound writable listed fun l inside =>
      inputs _ (List.mem_map_of_mem (within inside))
  obtain ⟨more, gathered, declared'⟩ : ∃ more, members'.foldlM
      (fun known (m : String × Json) => loadOutput known id m.1 m.2) known = .ok more ∧
      g.Declared more := by
    refine Outcome.exists_foldlM ?_ declared
    intro known m member declared
    obtain ⟨part, listed, within⟩ := each' m member
    exact exists_loadOutput declared listed fun l inside =>
      outputs _ (List.mem_map_of_mem (within inside))
  refine ⟨(h', more), ?_, building', declared'⟩
  simp only [Graph.loadLinks, Logged.outcome_bind, Logged.outcome_liftM, given, read, found, found',
    Outcome.ok_bind, Logged.outcome_foldlM, linked, gathered]
  rfl

end Links

/-- An id that a key gives is short enough to be written. -/
theorem DescribedBy.writable {entries : Members} (described : DescribedBy g entries) :
    ∀ id ∈ g.ids, Writable id := by
  intro id member
  obtain ⟨n, inside, rfl⟩ := List.mem_map.mp member
  obtain ⟨entry, -, describes⟩ := exists_of_forall₂ described.nodes inside
  have key := describes.key
  refine (writable_iff n.id).mpr ?_
  unfold Json.integerBound
  simp only [Json.toInteger] at key
  split at key
  · rename_i read
    cases key
    exact Text.natAbs_lt_of_readInteger read
  · cases key
  · cases key

/-- A document that describes a sound graph is loaded. -/
theorem exists_load {document : Json} {entries : Members} (has : HasEntries document entries)
    (described : DescribedBy g entries) (sound : g.Sound) (readings : Nat) :
    ∃ h, (load ({ registry := g.registry, readings } : Graph Int) document).outcome = .ok h := by
  have writable := described.writable
  obtain ⟨nodes, declared, read, inputs, outputs⟩ := described
  obtain ⟨placed, ran, registry, links, marks⟩ :=
    exists_loadNodes (h := { registry := g.registry, readings }) nodes sound.accepts
      (fun n member => writable n.id (List.mem_map_of_mem member)) rfl
      (by simpa [Graph.ids] using sound.nodup)
  have building : Building g placed := by
    refine ⟨?_, registry, by simpa using marks, by simp [links]⟩
    have changes : Changes Writable { registry := g.registry, readings } placed := by
      rw [← Logged.outcome_foldlM] at ran
      exact Logged.foldlM_keeps (fun _ _ _ => changes_loadNode) .refl ran
    exact (Sound.empty _ _).changes changes
  obtain ⟨state, linked, building', known⟩ : ∃ state : Graph Int × List (Declaration Int),
      entries.foldlM (fun state (e : String × Json) => (loadLinks state e.2).outcome) (placed, []) =
        .ok state ∧ Building g state.1 ∧ g.Declared state.2 := by
    refine Outcome.exists_foldlM ?_ ⟨building, by simp [Declared]⟩
    rintro ⟨h, known⟩ e member ⟨building, declared'⟩
    obtain ⟨stated, inside, here⟩ := Outcome.mapM_mem read member
    refine building.loadLinks sound writable declared' here ?_ ?_
    · exact fun d within => (inputs d).mpr (List.mem_flatMap.mpr ⟨stated, inside, within⟩)
    · exact fun d within => outputs d (List.mem_flatMap.mpr ⟨stated, inside, within⟩)
  -- All links of the graph were declared at inputs, so they are there now.
  have complete : ∀ d, Holds g d → Holds state.1 d := by
    intro d holds
    have reached := yields_loadAllLinks placed entries
    rw [Logged.outcome_foldlM, linked] at reached
    obtain ⟨declared', read', gains, -⟩ := reached.value
    obtain rfl : declared' = declared := Except.ok.inj (read'.symm.trans read)
    exact (gains.holds d).mpr (.inr ((inputs d).mp holds))
  have found : ∀ d ∈ state.2, state.1.links.any d.declares = true := by
    intro d member
    obtain ⟨l, present, rfl⟩ := known d member
    obtain ⟨l', present', same⟩ := complete _ ⟨l, present, rfl⟩
    exact List.any_eq_true.mpr ⟨l', present', declares_iff.mpr same⟩
  have none : (state.2.filter fun d => !state.1.links.any d.declares) = [] := by
    refine List.filter_eq_nil_iff.mpr fun d member => ?_
    simp [found d member]
  refine ⟨state.1, ?_⟩
  simp only [load, Logged.outcome_bind, Logged.outcome_liftM, documentNodes_eq has,
    Outcome.ok_bind, Logged.outcome_foldlM, ran, linked, none]
  rfl

/-- A document describes a sound graph over a registry. -/
structure Depicts (registry : Registry) (document : Json) (g : Graph Int) : Prop where
  registry_eq : g.registry = registry
  described : ∃ entries, HasEntries document entries ∧ DescribedBy g entries
  sound : g.Sound

theorem Depicts.writable {registry : Registry} {document : Json}
    (depicts : Depicts registry document g) :
    ∀ id ∈ g.ids, Writable id := by
  obtain ⟨entries, -, described⟩ := depicts.described
  exact described.writable

theorem outcome_ofDocument (registry : Registry) (document : Json) :
    (ofDocument registry document : Logged (Graph Int)).outcome =
      ((load ({ registry } : Graph Int) document).outcome).mapError fun e =>
        if e.isDocumentFault then .invalidDocument e else e := by
  simp only [ofDocument, replace, tryCatch, MonadExcept.tryCatch]
  cases (load ({ registry } : Graph Int) document).outcome <;> rfl

/-- What is loaded is described by the document. -/
theorem depicts_of_ofDocument {registry : Registry} (checks : registry.Checks) {document : Json}
    (success : (ofDocument registry document).outcome = .ok g) : Depicts registry document g := by
  have loads := yields_load (g := { registry }) checks rfl rfl document
  have changes := changes_of_replace success
  rw [outcome_ofDocument] at success
  cases loaded : (load ({ registry } : Graph Int) document).outcome with
  | ok g' =>
    rw [loaded] at loads success
    cases success
    obtain ⟨entries, has, same, described⟩ := loads.value
    exact ⟨same, ⟨entries, has, described⟩, (Sound.empty _ _).changes changes⟩
  | error e =>
    rw [loaded] at success
    cases success

/-- A document that is not loaded is malformed. -/
theorem isMalformed_of_ofDocument {registry : Registry} (checks : registry.Checks) {document : Json}
    {e : Error} (failed : (ofDocument registry document : Logged (Graph Int)).outcome = .error e) :
    e.isMalformed = true := by
  have loads := yields_load (g := { registry }) checks rfl rfl document
  rw [outcome_ofDocument] at failed
  cases loaded : (load ({ registry } : Graph Int) document).outcome with
  | ok g =>
    rw [loaded] at failed
    cases failed
  | error e' =>
    rw [loaded] at loads failed
    cases failed
    cases loads with
    | error refuses =>
      dsimp only
      split
      · rfl
      · rename_i other
        exact refuses.resolve_right other

/-- A document gives the graph that it describes, or it describes none and is malformed. -/
theorem ofDocument_depicts_or_malformed {registry : Registry} (checks : registry.Checks)
    (document : Json) :
    (∃ g, (ofDocument registry document).outcome = .ok g ∧ Depicts registry document g) ∨
      (∀ g, ¬ Depicts registry document g) ∧
        ∃ e, (ofDocument registry document : Logged (Graph Int)).outcome = .error e ∧
          e.isMalformed = true := by
  cases outcome : (ofDocument registry document : Logged (Graph Int)).outcome with
  | ok g => exact .inl ⟨g, rfl, depicts_of_ofDocument checks outcome⟩
  | error e =>
    refine .inr ⟨?_, e, rfl, isMalformed_of_ofDocument checks outcome⟩
    rintro g ⟨rfl, ⟨entries, has, described⟩, sound⟩
    obtain ⟨h, loaded⟩ := exists_load has described sound 0
    rw [outcome_ofDocument, loaded] at outcome
    cases outcome

section Builtin

theorem isValue_of_numbers {field : String} {count : Nat} {value : Json} {e : Error}
    (failed : Kind.numbers field count value = .error e) : e.isValue = true := by
  unfold Kind.numbers at failed
  split at failed
  · split at failed
    · split at failed
      · cases failed
        rfl
      · split at failed
        · cases failed
        · cases failed
          rfl
    · cases failed
      rfl
  · cases failed
    rfl

/-- A field that is looked at only if it is there fails only on what it holds. -/
theorem isValue_of_field {α : Type} {read : Json → Except Error α} {field : String}
    {data : Members} {e : Error} (each : ∀ v e, read v = .error e → e.isValue = true)
    (failed : (do
      if ← (Json.obj data).has field then discard (read (← (Json.obj data).member field))) =
        (.error e : Except Error Unit)) : e.isValue = true := by
  simp only [Json.has, Outcome.ok_bind] at failed
  cases found : Members.get? data field with
  | none =>
    simp only [found] at failed
    cases failed
  | some v =>
    simp only [found, Option.isSome_some, if_true, Json.member, Outcome.ok_bind] at failed
    cases result : read v with
    | ok a =>
      rw [result] at failed
      cases failed
    | error e' =>
      rw [result] at failed
      cases failed
      exact each v e result

theorem isValue_of_checkRadius {data : Members} {e : Error}
    (failed : Kind.checkRadius (.obj data) = .error e) : e.isValue = true := by
  simp only [Kind.checkRadius] at failed
  split at failed
  · split at failed
    · cases failed
    · cases failed
      rfl
  · cases failed
    rfl

theorem isDocumentFault_of_isValue {e : Error} (value : e.isValue = true) :
    e.isDocumentFault = true := by
  unfold Error.isDocumentFault
  split
  all_goals first | rfl | exact value

/-- The builtin kinds refuse data for what they are. -/
theorem checks_builtin : Registry.builtin.Checks := by
  intro k known data e failed
  apply isDocumentFault_of_isValue
  simp only [Registry.builtin, Registry.builtinKinds, List.mem_cons, List.not_mem_nil, or_false]
    at known
  rcases known with rfl | rfl | rfl | rfl | rfl | rfl | rfl | rfl | rfl | rfl | rfl | rfl
  case inr.inl => exact isValue_of_field (fun _ _ => isValue_of_numbers) failed
  case inr.inr.inr.inr.inl => exact isValue_of_field (fun _ _ => isValue_of_numbers) failed
  case inr.inr.inr.inr.inr.inl => exact isValue_of_field (fun _ _ => isValue_of_numbers) failed
  case inr.inr.inr.inr.inr.inr.inl => exact isValue_of_checkRadius failed
  all_goals cases failed

end Builtin

/-- A blur that goes to the canvas, with numbers and keys written in several ways. -/
def blurDocument : Json :=
  let link (node : Json) (side socket : String) : Json :=
    .obj [("connections", .arr [.obj [("node", node), (side, .str socket)]])]
  .obj [("id", .str "shadergraph@9"), ("nodes", .obj
    [(" 07", .obj [("id", .int 7), ("name", .str "Canvas"),
      ("position", .arr [.str "1.5", .bool true]),
      ("inputs", .obj [("color", link (.str "1") "output" "color")])]),
    ("1", .obj [("id", .bool true), ("name", .str "Box Blur"), ("data", .obj [("radius", .int 2)]),
      ("outputs", .obj [("color", link (.int 7) "input" "color")])])])]

/-- The same blur, with the link declared at its output only. -/
def loosenedDocument : Json :=
  .obj [("id", .str "shadergraph@9"), ("nodes", .obj
    [("7", .obj [("id", .int 7), ("name", .str "Canvas")]),
    ("1", .obj [("id", .int 1), ("name", .str "Box Blur"), ("outputs", .obj [("color",
      .obj [("connections", .arr [.obj [("node", .int 7), ("input", .str "color")]])])])])])]

theorem ofDocument_depicts_or_malformed_blur : Registry.builtin.Checks ∧
    (∃ g, (ofDocument .builtin blurDocument).outcome = .ok g ∧ Depicts .builtin blurDocument g) ∧
    (∀ g, ¬ Depicts .builtin loosenedDocument g) ∧
      ∃ e, (ofDocument .builtin loosenedDocument : Logged (Graph Int)).outcome = .error e ∧
        e.isMalformed = true := by
  have loads : (ofDocument .builtin blurDocument : Logged (Graph Int)).outcome.isOk = true := by
    decide +kernel
  have refused : (ofDocument .builtin loosenedDocument : Logged (Graph Int)).outcome.isOk =
      false := by
    decide +kernel
  refine ⟨checks_builtin, ?_, ?_⟩
  · rcases ofDocument_depicts_or_malformed checks_builtin blurDocument with
      loaded | ⟨-, e, failed, -⟩
    · exact loaded
    · rw [failed] at loads
      cases loads
  · rcases ofDocument_depicts_or_malformed checks_builtin loosenedDocument with
      ⟨g, loaded, -⟩ | malformed
    · rw [loaded] at refused
      cases refused
    · exact malformed

end Document

end ShaderFlow
