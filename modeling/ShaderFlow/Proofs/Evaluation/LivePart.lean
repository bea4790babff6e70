import ShaderFlow.Proofs.Evaluation.Greedy
import ShaderFlow.Proofs.Evaluation.Rest
import ShaderFlow.Proofs.Evaluation.Totality

set_option autoImplicit false

/-
What a sink evaluates to is settled by the nodes that lead to it and the links into them. Other
nodes, the places of the nodes, the order they were added in and how the links into different inputs
lie between each other play no part.
-/

namespace ShaderFlow

namespace Graph

variable {g h : Graph Int} {sink : Int}

/-- Two graphs agree on what a sink needs: the same nodes lead to it, of the same kinds and with the
same data, and the same links enter each of their inputs in the same order. -/
structure SameLive (g h : Graph Int) (sink : Int) : Prop where
  registry : h.registry = g.registry
  leads : ∀ id, h.LeadsTo id sink ↔ g.LeadsTo id sink
  nodes : ∀ m ∈ g.nodes, ∀ n ∈ h.nodes, n.id = m.id → g.LeadsTo m.id sink →
    n.kind = m.kind ∧ n.data = m.data
  links : ∀ id, g.LeadsTo id sink → ∀ input, h.linksInto id input = g.linksInto id input

namespace SameLive

theorem mem_links (same : SameLive g h sink) {l : Link Int} (live : g.LeadsTo l.target sink) :
    l ∈ h.links ↔ l ∈ g.links := by
  have into : l ∈ h.linksInto l.target l.input ↔ l ∈ g.linksInto l.target l.input := by
    rw [same.links l.target live]
  simpa [mem_linksInto] using into

theorem feeds (same : SameLive g h sink) {b : Int} (live : g.LeadsTo b sink) (a : Int) :
    h.Feeds a b ↔ g.Feeds a b := by
  constructor
  · rintro ⟨l, member, rfl, rfl⟩
    exact ⟨l, (same.mem_links live).mp member, rfl, rfl⟩
  · rintro ⟨l, member, rfl, rfl⟩
    exact ⟨l, (same.mem_links live).mpr member, rfl, rfl⟩

/-- The nodes that the sink needs come in the same order. -/
theorem order (same : SameLive g h sink) (sound : g.Sound) (sound' : h.Sound) (acyclic : g.Acyclic)
    (acyclic' : h.Acyclic) (present : sink ∈ g.ids) (present' : sink ∈ h.ids) :
    h.order (some sink) = g.order (some sink) := by
  obtain ⟨order, ran, nodup, greedy, members⟩ := exists_greedy_order sound acyclic present
  obtain ⟨order', ran', nodup', greedy', members'⟩ := exists_greedy_order sound' acyclic' present'
  have perm : order'.Perm order :=
    (List.perm_ext_iff_of_nodup nodup' nodup).mpr fun id => by rw [members, members', same.leads]
  have needs : ∀ a ∈ order', ∀ b, g.needs a b ↔ h.needs a b := fun a member b =>
    (same.feeds ((same.leads a).mp ((members' a).mp member)) b).symm
  rw [ran, ran', (greedy'.congr needs).unique greedy perm]

/-- As many links into live nodes read an output. -/
theorem fanOut (same : SameLive g h sink) (sound : g.Sound) (sound' : h.Sound)
    {e : Evaluation Int} (graph : e.graph = g) (live : ∀ id ∈ e.live, g.LeadsTo id sink) (id : Int)
    (output : String) : { e with graph := h }.fanOut id output = e.fanOut id output := by
  simp only [Evaluation.fanOut, graph, List.countP_eq_length_filter]
  refine List.Perm.length_eq ((List.perm_ext_iff_of_nodup (sound'.linksNodup.filter _)
    (sound.linksNodup.filter _)).mpr fun l => ?_)
  simp only [List.mem_filter]
  refine and_congr_left fun reads => same.mem_links (live _ ?_)
  simp only [Bool.and_eq_true, List.contains_iff_mem] at reads
  exact reads.2

theorem node (same : SameLive g h sink) (present : sink ∈ g.ids) (present' : sink ∈ h.ids)
    (sound : g.Sound) (sound' : h.Sound) {id : Int} (live : g.LeadsTo id sink) :
    ∃ m n, g.node id = .ok m ∧ h.node id = .ok n ∧ n.label = m.label ∧ n.kind = m.kind ∧
      n.data = m.data := by
  obtain ⟨m, inside, rfl⟩ := List.mem_map.mp (live.mem_ids sound present)
  obtain ⟨n, inside', there⟩ := List.mem_map.mp
    (((same.leads m.id).mpr live).mem_ids sound' present')
  obtain ⟨kind, data⟩ := same.nodes m inside n inside' there live
  refine ⟨m, n, node_eq_ok_of_mem sound inside, ?_, ?_, kind, data⟩
  · rw [← there]
    exact node_eq_ok_of_mem sound' inside'
  · rw [Node.label, Node.label, there]

theorem produce (same : SameLive g h sink) (sound : g.Sound) (sound' : h.Sound)
    (present : sink ∈ g.ids) (present' : sink ∈ h.ids) {e : Evaluation Int} (graph : e.graph = g)
    (live : ∀ id ∈ e.live, g.LeadsTo id sink) {id : Int} (leads : g.LeadsTo id sink) :
    { e with graph := h }.produce id = e.produce id := by
  obtain ⟨m, n, found, found', label, kind, data⟩ :=
    same.node present present' sound sound' leads
  have inputs : ∀ k, { e with graph := h }.inputsFor id k = e.inputsFor id k := by
    intro k
    simp only [Evaluation.inputsFor, lookup_inputsOf, graph, same.links id leads]
    rfl
  have shared : ∀ k produced, { e with graph := h }.bindShared id k produced =
      e.bindShared id k produced := by
    intro k produced
    simp only [Evaluation.bindShared, same.fanOut sound sound' graph live]
  simp only [Evaluation.produce, graph, found, found', Outcome.ok_bind, kindOf, kind, data, label,
    same.registry, inputs, shared]

/-- A path into a set of nodes that holds whatever feeds them is a path in each graph that has the
same links there. -/
theorem leadsTo_of_closed {live : List Int} (present : sink ∈ live)
    (closed : ∀ l ∈ g.links, l.target ∈ live → l.source ∈ live ∧ l ∈ h.links) {id : Int}
    (path : g.LeadsTo id sink) : id ∈ live ∧ h.LeadsTo id sink := by
  induction path using Relation.ReflTransGen.head_induction_on with
  | refl => exact ⟨present, .refl⟩
  | head feeds _ ih =>
    obtain ⟨l, member, rfl, rfl⟩ := feeds
    obtain ⟨inside, kept⟩ := closed l member ih.1
    exact ⟨inside, .head ⟨l, kept, rfl, rfl⟩ ih.2⟩

/-- It is enough to compare two graphs at nodes that hold the sink and whatever feeds them. -/
theorem of_closed {live : List Int} (registry : h.registry = g.registry) (present : sink ∈ live)
    (closed : ∀ l ∈ g.links ++ h.links, l.target ∈ live → l.source ∈ live)
    (nodes : ∀ m ∈ g.nodes, ∀ n ∈ h.nodes, n.id = m.id → m.id ∈ live →
      n.kind = m.kind ∧ n.data = m.data)
    (links : ∀ l ∈ g.links ++ h.links, l.target ∈ live →
      h.linksInto l.target l.input = g.linksInto l.target l.input) : SameLive g h sink := by
  have forth : ∀ l ∈ g.links, l.target ∈ live → l ∈ h.links := by
    intro l member inside
    have into := links l (List.mem_append_left _ member) inside
    exact (mem_linksInto.mp (into ▸ mem_linksInto.mpr ⟨member, rfl, rfl⟩)).1
  have back : ∀ l ∈ h.links, l.target ∈ live → l ∈ g.links := by
    intro l member inside
    have into := links l (List.mem_append_right _ member) inside
    exact (mem_linksInto.mp (into ▸ mem_linksInto.mpr ⟨member, rfl, rfl⟩)).1
  have leads : ∀ {id}, g.LeadsTo id sink → id ∈ live ∧ h.LeadsTo id sink :=
    leadsTo_of_closed present fun l member inside =>
      ⟨closed l (List.mem_append_left _ member) inside, forth l member inside⟩
  have leads' : ∀ {id}, h.LeadsTo id sink → id ∈ live ∧ g.LeadsTo id sink :=
    leadsTo_of_closed present fun l member inside =>
      ⟨closed l (List.mem_append_right _ member) inside, back l member inside⟩
  refine ⟨registry, fun id => ⟨fun path => (leads' path).2, fun path => (leads path).2⟩, ?_, ?_⟩
  · exact fun m inside n inside' same path => nodes m inside n inside' same (leads path).1
  · intro id path input
    -- An input that no link enters has no links in either graph.
    by_cases empty : ∀ l ∈ g.links ++ h.links, ¬ (l.target = id ∧ l.input = input)
    · have none : ∀ k : Graph Int, k.links ⊆ g.links ++ h.links → k.linksInto id input = [] := by
        intro k inside
        refine List.eq_nil_iff_forall_not_mem.mpr fun l member => ?_
        obtain ⟨member, into⟩ := mem_linksInto.mp member
        exact empty l (inside member) into
      rw [none h (List.subset_append_right _ _), none g (List.subset_append_left _ _)]
    · push Not at empty
      obtain ⟨l, member, rfl, rfl⟩ := empty
      exact links l member (leads path).1

end SameLive

/-- Two graphs without cycles that agree on what a sink needs give the same fragment or fail alike,
and so give the same source for each target. -/
theorem outcome_build_of_sameLive (same : SameLive g h sink) (sound : g.Sound) (sound' : h.Sound)
    (acyclic : g.Acyclic) (acyclic' : h.Acyclic) (isSink : g.IsSink sink) (isSink' : h.IsSink sink)
    (cancelled : Bool) :
    (h.build (some (.int sink)) cancelled).outcome =
        (g.build (some (.int sink)) cancelled).outcome ∧
      ∀ target, (h.evaluate target (some (.int sink)) cancelled).outcome =
        (g.evaluate target (some (.int sink)) cancelled).outcome := by
  have built : (h.build (some (.int sink)) cancelled).outcome =
      (g.build (some (.int sink)) cancelled).outcome := by
    have selects : g.Selects (some sink) sink := ⟨rfl, isSink⟩
    have selects' : h.Selects (some sink) sink := ⟨rfl, isSink'⟩
    obtain ⟨n, selected', there⟩ := selectSink_eq_ok sound' selects'
    obtain ⟨m, selected, rfl⟩ := selectSink_eq_ok sound selects
    obtain ⟨order, ran, -, -, members⟩ := exists_greedy_order sound acyclic isSink.mem_ids
    have ran' : h.order (some m.id) = .ok order :=
      (same.order sound sound' acyclic acyclic' isSink.mem_ids isSink'.mem_ids).trans ran
    let e : Evaluation Int := { graph := g, sink := m.id, live := order, pending := order }
    have agrees : ({ e with graph := h }.runNodes cancelled order).outcome =
        ((e.runNodes cancelled order).outcome >>= fun last => .ok { last with graph := h }) := by
      refine Evaluation.runNodes_graph cancelled fun outputs id member => ?_
      exact same.produce sound sound' isSink.mem_ids isSink'.mem_ids (e := { e with outputs }) rfl
        (fun id live => (members id).mp live) ((members id).mp member)
    have start : Evaluation.start g m.id = .ok e := by rw [Evaluation.start, ran]; rfl
    have start' : Evaluation.start h m.id = .ok { e with graph := h } := by
      rw [Evaluation.start, ran']; rfl
    simp only [Option.map_some] at selected selected'
    simp only [build, Logged.outcome_bind, Logged.outcome_liftM, selected, selected', there,
      Outcome.ok_bind, start, start']
    rw [agrees, bind_assoc]
    rfl
  refine ⟨built, fun target => ?_⟩
  rw [evaluate, evaluate, Logged.outcome_bind, Logged.outcome_bind, built]

/-- A blur with a given radius blended with its inverse. -/
def blendedBlur : List Edit :=
  let place (kind : String) (data : Members) : Edit :=
    .add (.str kind) (.arr [.int 0, .int 0]) (.obj data) none
  let join (source target : Int) (input : String) : Edit :=
    .connect ⟨source, .str "color", target, .str input⟩
  [place "Box Blur" [("radius", .int 2)], place "Invert Color" [], place "Blend Colors" [],
    place "Canvas" [], join 1 2 "color", join 1 3 "colorA", join 2 3 "colorB", join 3 4 "color"]

/-- The same among other nodes, put together in another order and laid out elsewhere. -/
def scatteredBlur : List Edit :=
  let place (id : Int) (kind : String) (data : Members) : Edit :=
    .add (.str kind) (.arr [.int id, .int (-id)]) (.obj data) (some id)
  let join (source target : Int) (input : String) : Edit :=
    .connect ⟨source, .str "color", target, .str input⟩
  [place 9 "Canvas" [], place 4 "Canvas" [], place 3 "Blend Colors" [], place 0 "Webcam" [],
    place 2 "Invert Color" [], place 1 "Box Blur" [("radius", .int 2)], join 2 9 "color",
    join 3 4 "color", join 2 3 "colorB", join 1 3 "colorA", join 1 2 "color"]

/-- Whether data holds a radius and nothing else. -/
def isRadius (r : Int) : Members → Bool
  | [(key, .int s)] => key == "radius" && s == r
  | _ => false

theorem eq_of_isRadius {r : Int} {data : Members} (holds : isRadius r data = true) :
    data = [("radius", .int r)] := by
  unfold isRadius at holds
  split at holds
  · simpa using holds
  · cases holds

theorem outcome_build_scatteredBlur :
    let g := Graph.run {} blendedBlur
    let h := Graph.run {} scatteredBlur
    g.Sound ∧ h.Sound ∧ g.Acyclic ∧ h.Acyclic ∧ g.IsSink 4 ∧ h.IsSink 4 ∧ SameLive g h 4 ∧
      (h.build (some (.int 4)) false).outcome = (g.build (some (.int 4)) false).outcome ∧
      ∀ target, (h.evaluate target (some (.int 4)) false).outcome =
        (g.evaluate target (some (.int 4)) false).outcome := by
  intro g h
  have sound : g.Sound := sound_run (.empty _ _) blendedBlur
  have sound' : h.Sound := sound_run (.empty _ _) scatteredBlur
  have ascending : ∀ l ∈ g.links ++ h.links, l.source.toNat < l.target.toNat := by decide +kernel
  have acyclic : g.Acyclic :=
    acyclic_of_ascending fun l member => ascending l (List.mem_append_left _ member)
  have acyclic' : h.Acyclic :=
    acyclic_of_ascending fun l member => ascending l (List.mem_append_right _ member)
  have isSink : g.IsSink 4 := isSink_iff.mpr (by decide +kernel)
  have isSink' : h.IsSink 4 := isSink_iff.mpr (by decide +kernel)
  have holds : ∀ n ∈ g.nodes ++ h.nodes, n.id ∈ [1, 2, 3, 4] →
      (if n.id = 1 then isRadius 2 n.data else n.data.isEmpty) = true := by decide +kernel
  have data : ∀ n ∈ g.nodes ++ h.nodes, n.id ∈ [1, 2, 3, 4] →
      n.data = if n.id = 1 then [("radius", .int 2)] else [] := by
    intro n member live
    have known := holds n member live
    split at known
    · rw [if_pos ‹_›, eq_of_isRadius known]
    · rw [if_neg ‹_›, List.isEmpty_iff.mp known]
  have same : SameLive g h 4 := by
    have present : (4 : Int) ∈ [1, 2, 3, 4] := by decide
    refine .of_closed ?_ present (by decide +kernel) ?_ (by decide +kernel)
    · exact (registry_run _ _).trans (registry_run _ _).symm
    · intro m inside n inside' there live
      have kinds : ∀ m ∈ g.nodes, ∀ n ∈ h.nodes, n.id = m.id → n.kind = m.kind := by decide +kernel
      refine ⟨kinds m inside n inside' there, ?_⟩
      rw [data m (List.mem_append_left _ inside) live,
        data n (List.mem_append_right _ inside') (there ▸ live), there]
  exact ⟨sound, sound', acyclic, acyclic', isSink, isSink', same,
    outcome_build_of_sameLive same sound sound' acyclic acyclic' isSink isSink' false⟩

end Graph

end ShaderFlow
