import ShaderFlow.Proofs.Evaluation.Cycle
import ShaderFlow.Proofs.Evaluation.Greedy

set_option autoImplicit false

/-
In an arrangement of a graph each id stands once and every link leads onwards. The order of all
nodes is the arrangement that comes first lexicographically. The order of the nodes that a sink
needs is the one that these nodes have by themselves.
-/

namespace ShaderFlow.Graph

variable {g : Graph Int}

/-- Each id stands once in the order, and every link leads onwards. -/
structure Arranges (g : Graph Int) (order : List Int) : Prop where
  nodup : order.Nodup
  members : ∀ id, id ∈ order ↔ id ∈ g.ids
  onwards : ∀ l ∈ g.links, [l.source, l.target].Sublist order

theorem Arranges.perm {order : List Int} (arranges : g.Arranges order) (sound : g.Sound) :
    order.Perm g.ids :=
  (List.perm_ext_iff_of_nodup arranges.nodup sound.nodup).mpr arranges.members

theorem arranges_of_ordered {order : List Int} (sound : g.Sound) (perm : order.Perm g.ids)
    (ordered : g.Ordered order) : g.Arranges order where
  nodup := perm.nodup_iff.mpr sound.nodup
  members := fun id => perm.mem_iff
  onwards := by
    intro l member
    have feeds : g.Feeds l.source l.target := ⟨l, member, rfl, rfl⟩
    obtain ⟨front, back, rfl⟩ := List.append_of_mem (perm.mem_iff.mpr (sound.mem_ids feeds).2)
    have earlier : l.source ∈ front := by
      simpa using ordered front l.target back rfl l.source feeds
    apply (List.singleton_sublist.mpr earlier).append
    exact List.singleton_sublist.mpr List.mem_cons_self

theorem Arranges.ordered {order : List Int} (arranges : g.Arranges order) : g.Ordered order := by
  rintro front b back rfl a ⟨l, member, rfl, rfl⟩
  have absent : l.target ∉ back :=
    (List.nodup_cons.mp (List.nodup_append.mp arranges.nodup).2.1).1
  obtain ⟨early, late, split, before, after⟩ :=
    List.sublist_append_iff.mp (arranges.onwards l member)
  cases early with
  | nil =>
    -- Both ends would stand from the target on, so the target would stand behind itself.
    rw [List.nil_append] at split
    subst split
    exact absurd (List.singleton_sublist.mp after.tail) absent
  | cons first rest =>
    obtain rfl : l.source = first := (List.cons.inj split).1
    simpa using before.subset List.mem_cons_self

/-- The nodes with the given ids, and the links between them. -/
def restrict (g : Graph Int) (ids : List Int) : Graph Int :=
  { g with
    nodes := g.nodes.filter fun n => ids.contains n.id
    links := g.links.filter fun l => ids.contains l.source && ids.contains l.target }

theorem mem_ids_restrict {ids : List Int} {id : Int} :
    id ∈ (g.restrict ids).ids ↔ id ∈ g.ids ∧ id ∈ ids := by
  simp only [Graph.ids, restrict, List.mem_map, List.mem_filter, List.contains_iff_mem]
  constructor
  · rintro ⟨n, ⟨member, inside⟩, rfl⟩
    exact ⟨⟨n, member, rfl⟩, inside⟩
  · rintro ⟨⟨n, member, rfl⟩, inside⟩
    exact ⟨n, ⟨member, inside⟩, rfl⟩

theorem feeds_restrict {ids : List Int} {a b : Int} :
    (g.restrict ids).Feeds a b ↔ g.Feeds a b ∧ a ∈ ids ∧ b ∈ ids := by
  simp only [Feeds, restrict, List.mem_filter, Bool.and_eq_true, List.contains_iff_mem]
  constructor
  · rintro ⟨l, ⟨member, inside⟩, rfl, rfl⟩
    exact ⟨⟨l, member, rfl, rfl⟩, inside⟩
  · rintro ⟨⟨l, member, rfl, rfl⟩, inside⟩
    exact ⟨l, ⟨member, inside⟩, rfl, rfl⟩

theorem Sound.restrict (sound : g.Sound) (ids : List Int) : (g.restrict ids).Sound :=
  sound.filter ids.contains

theorem acyclic_restrict (acyclic : g.Acyclic) (ids : List Int) : (g.restrict ids).Acyclic :=
  Subrelation.wf (fun feeds => (feeds_restrict.mp feeds).1) acyclic

/-- All nodes are ordered greedily. -/
theorem exists_greedy_fullOrder (sound : g.Sound) (acyclic : g.Acyclic) :
    ∃ order, g.order none = .ok order ∧ order.Perm g.ids ∧ Greedy g.needs order := by
  rcases fullOrder_cases sound with ⟨-, order, full, perm, ordered⟩ | ⟨cyclic, -⟩
  · exact ⟨order, full, perm, greedy_fullOrder sound full ordered⟩
  · exact absurd acyclic cyclic

/-- A greedy order of some nodes that are fed by no others is the one they have by themselves. -/
theorem order_restrict {order : List Int} (sound : g.Sound) (acyclic : g.Acyclic)
    (nodup : order.Nodup) (present : ∀ id ∈ order, id ∈ g.ids) (greedy : Greedy g.needs order)
    (closed : ∀ b ∈ order, ∀ a, g.Feeds a b → a ∈ order) :
    (g.restrict order).order none = .ok order := by
  have sound' : (g.restrict order).Sound := sound.restrict order
  obtain ⟨alone, ran, perm, greedy'⟩ :=
    exists_greedy_fullOrder sound' (acyclic_restrict acyclic order)
  have ids : (g.restrict order).ids.Perm order := by
    apply (List.perm_ext_iff_of_nodup sound'.nodup nodup).mpr
    intro id
    rw [mem_ids_restrict]
    exact and_iff_right_of_imp (present id)
  have needs : ∀ b ∈ order, ∀ a, (g.restrict order).needs b a ↔ g.needs b a := by
    intro b member a
    show (g.restrict order).Feeds a b ↔ g.Feeds a b
    rw [feeds_restrict]
    exact and_iff_left_of_imp fun feeds => ⟨closed b member a feeds, member⟩
  rw [ran, greedy'.unique (greedy.congr needs) (perm.trans ids)]

/-- There is an order of all nodes exactly when no node is on a cycle, and it is the least
arrangement. Without cycles a sink's order has the sink and what leads to it, as these nodes are
ordered by themselves. -/
theorem order_least_arrangement (sound : g.Sound) :
    ((∃ order, g.order none = .ok order) ↔ ¬ ∃ id, g.OnCycle id) ∧
    (∀ order, g.order none = .ok order → g.Arranges order ∧
      ∀ other, g.Arranges other → order = other ∨ List.Lex (· < ·) order other) ∧
    ((¬ ∃ id, g.OnCycle id) → ∀ sink ∈ g.ids, ∃ order, g.order (some sink) = .ok order ∧
      order.Nodup ∧ (∀ id, id ∈ order ↔ id = sink ∨ Relation.TransGen g.Feeds id sink) ∧
      (g.restrict order).order none = .ok order) := by
  have free_of_order : (∃ order, g.order none = .ok order) → ¬ ∃ id, g.OnCycle id := by
    rintro ⟨order, made⟩ cycle
    obtain ⟨stuck, -, -, failed⟩ := order_of_cycle sound cycle none
    exact writing_error_ne_ok _ _ _ (failed.symm.trans made)
  refine ⟨⟨free_of_order, fun free => exists_order_of_not_onCycle sound free none⟩, ?_, ?_⟩
  · intro order made
    have acyclic : g.Acyclic := (acyclic_iff sound).mpr (free_of_order ⟨order, made⟩)
    obtain ⟨order', made', perm, greedy⟩ := exists_greedy_fullOrder sound acyclic
    obtain rfl : order' = order := Except.ok.inj (made'.symm.trans made)
    refine ⟨arranges_of_ordered sound perm greedy.sequenced, fun other arranges => ?_⟩
    exact greedy.eq_or_lex arranges.ordered (perm.trans (arranges.perm sound).symm)
  · intro free sink present
    have acyclic : g.Acyclic := (acyclic_iff sound).mpr free
    obtain ⟨order, made, nodup, greedy, members⟩ := exists_greedy_order sound acyclic present
    refine ⟨order, made, nodup, ?_, order_restrict sound acyclic nodup ?_ greedy ?_⟩
    · intro id
      rw [members, LeadsTo, Relation.reflTransGen_iff_eq_or_transGen, eq_comm]
    · intro id member
      rcases ((members id).mp member).cases_head with rfl | ⟨b, feeds, -⟩
      · exact present
      · exact (sound.mem_ids feeds).1
    · intro b member a feeds
      exact (members a).mpr (.head feeds ((members b).mp member))

/-- A video feeds both inputs of a blend and this a canvas, each numbered below what feeds it.
Another video, an inverter and a canvas stand beside them. -/
def braided : List Edit :=
  let place (id : Int) (kind : String) : Edit :=
    .add (.str kind) (.arr [.int 0, .int 0]) (.obj []) (some id)
  let join (source target : Int) (input : String) : Edit :=
    .connect ⟨source, .str "color", target, .str input⟩
  [place 6 "Webcam", place 5 "Blend Colors", place 1 "Canvas", place 4 "Webcam", place 2 "Canvas",
    place 3 "Invert Color", join 5 1 "color", join 6 5 "colorA", join 6 5 "colorB",
    join 4 3 "color", join 3 2 "color"]

theorem order_least_arrangement_braided :
    (run {} braided).Sound ∧ (run {} braided).order none = .ok [4, 3, 2, 6, 5, 1] ∧
      (run {} braided).Arranges [4, 3, 2, 6, 5, 1] ∧
      (∀ other, (run {} braided).Arranges other →
        [4, 3, 2, 6, 5, 1] = other ∨ List.Lex (· < ·) [4, 3, 2, 6, 5, 1] other) ∧
      1 ∈ (run {} braided).ids ∧ (run {} braided).order (some 1) = .ok [6, 5, 1] := by
  have sound : (run {} braided).Sound := sound_run (.empty _ _) braided
  have made : (run {} braided).order none = .ok [4, 3, 2, 6, 5, 1] := by rfl
  have present : 1 ∈ (run {} braided).ids := by decide +kernel
  obtain ⟨ordered, least, needed⟩ := order_least_arrangement sound
  obtain ⟨order, chosen, -, members, alone⟩ := needed (ordered.mp ⟨_, made⟩) 1 present
  have live : ∀ id, id ∈ order ↔ id ∈ [6, 5, 1] := by
    have closed : ∀ l ∈ (run {} braided).links, l.target ∈ [6, 5, 1] → l.source ∈ [6, 5] := by
      decide +kernel
    have path : (run {} braided).Feeds 6 5 ∧ (run {} braided).Feeds 5 1 := by
      unfold Feeds
      decide +kernel
    intro id
    rw [members]
    constructor
    · rintro (rfl | leads)
      · decide
      · induction leads using Relation.TransGen.head_induction_on with
        | single feeds =>
          obtain ⟨l, member, rfl, target⟩ := feeds
          exact List.mem_append_left [1] (closed l member (by simp [target]))
        | head feeds _ ih =>
          obtain ⟨l, member, rfl, rfl⟩ := feeds
          exact List.mem_append_left [1] (closed l member ih)
    · simp only [List.mem_cons, List.not_mem_nil, or_false]
      rintro (rfl | rfl | rfl)
      · exact .inr (.tail (.single path.1) path.2)
      · exact .inr (.single path.2)
      · exact .inl rfl
  have same : (run {} braided).restrict order = (run {} braided).restrict [6, 5, 1] := by
    simp only [restrict, List.contains_eq_mem, live]
  have needs : order = [6, 5, 1] := by
    rw [same] at alone
    have by_itself : ((run {} braided).restrict [6, 5, 1]).order none = .ok [6, 5, 1] := by rfl
    exact Except.ok.inj (alone.symm.trans by_itself)
  exact ⟨sound, made, (least _ made).1, (least _ made).2, present, needs ▸ chosen⟩

end ShaderFlow.Graph
