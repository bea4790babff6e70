import Mathlib.Data.List.Perm.Subperm
import Mathlib.Data.List.Sort
import ShaderFlow.Evaluation.Order
import ShaderFlow.Proofs.Graph.Invariant
import ShaderFlow.Proofs.Sequence

set_option autoImplicit false

namespace ShaderFlow

namespace Graph

variable {g : Graph Int}

/-- A link leads from one node to another. -/
def Feeds (g : Graph Int) (a b : Int) : Prop := ∃ l ∈ g.links, l.source = a ∧ l.target = b

/-- Following links backwards always comes to an end. -/
abbrev Acyclic (g : Graph Int) : Prop := WellFounded g.Feeds

/-- Links that only ever go up do not lead in a circle. -/
theorem acyclic_of_ascending (ascending : ∀ l ∈ g.links, l.source.toNat < l.target.toNat) :
    g.Acyclic := by
  refine Subrelation.wf ?_ (measure Int.toNat).wf
  rintro a b ⟨l, member, rfl, rfl⟩
  exact ascending l member

/-- Each id comes after those of all nodes that feed it. -/
abbrev Ordered (g : Graph Int) (order : List Int) : Prop :=
  Sequenced id (fun target source => g.Feeds source target) order

theorem Ordered.acc {order : List Int} (ordered : g.Ordered order) :
    ∀ id ∈ order, Acc g.Feeds id := by
  induction order using List.reverseRecOn with
  | nil => simp
  | append_singleton order last ih =>
    intro id member
    rcases List.mem_append.mp member with member | same
    · exact ih ordered.of_append id member
    · obtain rfl := List.mem_singleton.mp same
      refine ⟨id, fun a feeds => ih ordered.of_append a ?_⟩
      simpa using ordered.last_met a feeds

theorem Sound.mem_ids (sound : g.Sound) {a b : Int} (feeds : g.Feeds a b) :
    a ∈ g.ids ∧ b ∈ g.ids := by
  obtain ⟨l, member, rfl, rfl⟩ := feeds
  obtain ⟨k, k', o, i, ⟨m, inSource, source, _⟩, ⟨n, inTarget, target, _⟩, _⟩ :=
    sound.joins l member
  exact ⟨List.mem_map.mpr ⟨m, inSource, source⟩, List.mem_map.mpr ⟨n, inTarget, target⟩⟩

end Graph

namespace Sequencing

theorem written_eq (links : List (Link Int)) (id : Int) : written links id = id := by
  unfold written
  induction links with
  | nil => rfl
  | cons l links ih =>
    have here : (if l.target == id then l.target else id) = id := by
      split
      · simp_all
      · rfl
    rw [List.foldl_cons, here, ih]

theorem remaining_take (o : Sequencing Int) (id : Int) :
    (o.take id).remaining = o.remaining.filter (· != id) :=
  List.map_id'' (fun a => written_eq _ a) _

/-- The state of an ordering: the ids are shared out between those taken and those left, the taken
ones are in order, and the links out of the others are left. -/
structure Sorting (g : Graph Int) (o : Sequencing Int) : Prop where
  perm : (o.taken ++ o.remaining).Perm g.ids
  links_eq : o.links = g.links.filter fun l => !o.taken.contains l.source
  ordered : g.Ordered o.taken

namespace Sorting

variable {g : Graph Int} {o : Sequencing Int}

theorem start (g : Graph Int) : Sorting g { remaining := g.ids, links := g.links } where
  perm := by simp
  links_eq := by simp
  ordered := .nil

theorem mem_ready_iff {id : Int} (inv : Sorting g o) :
    id ∈ o.ready ↔ id ∈ o.remaining ∧ ∀ a, g.Feeds a id → a ∈ o.taken := by
  simp only [ready, List.mem_filter, Bool.not_eq_true', List.any_eq_false, beq_iff_eq, inv.links_eq,
    List.contains_eq_mem, decide_eq_false_iff_not]
  refine and_congr_right fun _ => ⟨?_, ?_⟩
  · rintro free a ⟨l, member, rfl, rfl⟩
    by_contra outside
    exact free l ⟨member, outside⟩ rfl
  · rintro fed l ⟨member, outside⟩ rfl
    exact outside (fed _ ⟨l, member, rfl, rfl⟩)

theorem nodup (sound : g.Sound) (inv : Sorting g o) : (o.taken ++ o.remaining).Nodup :=
  inv.perm.nodup_iff.mpr sound.nodup

theorem not_mem_taken {id : Int} (sound : g.Sound) (inv : Sorting g o) (left : id ∈ o.remaining) :
    id ∉ o.taken :=
  fun taken => (List.nodup_append.mp (inv.nodup sound)).2.2 id taken id left rfl

theorem take {id : Int} (sound : g.Sound) (inv : Sorting g o) (isReady : id ∈ o.ready) :
    Sorting g (o.take id) := by
  obtain ⟨left, fed⟩ := inv.mem_ready_iff.mp isReady
  have nodup := inv.nodup sound
  refine ⟨?_, ?_, inv.ordered.snoc (by simpa using fed)⟩
  · rw [remaining_take]
    refine .trans ?_ inv.perm
    rw [Sequencing.take, List.append_assoc]
    refine .append_left _ ?_
    rw [← (List.nodup_append.mp nodup).2.1.erase_eq_filter]
    exact (List.perm_cons_erase left).symm
  · simp only [Sequencing.take, inv.links_eq, List.filter_filter]
    apply List.filter_congr
    intro l _
    by_cases same : l.source = id <;> simp [same]

/-- When none is ready, those left are each fed by another one left, so none of them is ever free.
-/
theorem not_acc (sound : g.Sound) (inv : Sorting g o) (stuck : o.ready = []) :
    ∀ id ∈ o.remaining, ¬ Acc g.Feeds id := by
  intro id left acc
  induction acc with
  | intro id _ ih =>
    have notReady : id ∉ o.ready := by simp [stuck]
    rw [inv.mem_ready_iff, not_and] at notReady
    obtain ⟨a, notFed⟩ := not_forall.mp (notReady left)
    obtain ⟨feeds, outside⟩ := Classical.not_imp.mp notFed
    have inside : a ∈ o.taken ++ o.remaining := inv.perm.mem_iff.mpr (sound.mem_ids feeds).1
    exact ih a feeds ((List.mem_append.mp inside).resolve_left outside)

end Sorting

/-- One step takes an id, or none is ready and it changes nothing. -/
theorem step_cases (o : Sequencing Int) :
    (∃ id ∈ o.ready, o.step = .ok (o.take id)) ∨ (o.ready = [] ∧ o.step = .ok o) := by
  cases smallest : o.ready.min? with
  | none => exact .inr ⟨List.min?_eq_none_iff.mp smallest, by
      simp only [step, NodeId.least?, smallest, Outcome.ok_bind]; rfl⟩
  | some id => exact .inl ⟨id, List.min?_mem smallest, by
      simp only [step, NodeId.least?, smallest, Outcome.ok_bind]; rfl⟩

/-- After some steps as many ids are taken, or none is ready. -/
theorem steps {g : Graph Int} (sound : g.Sound) {α : Type} (turns : List α) {o : Sequencing Int}
    (inv : Sorting g o) :
    ∃ o', turns.foldlM (fun o _ => o.step) o = .ok o' ∧ Sorting g o' ∧
      (o'.taken.length = o.taken.length + turns.length ∨ o'.ready = []) := by
  induction turns generalizing o with
  | nil => exact ⟨o, rfl, inv, .inl rfl⟩
  | cons turn turns ih =>
    rcases o.step_cases with ⟨id, isReady, took⟩ | ⟨stuck, stays⟩
    · obtain ⟨o', ran, inv', ended⟩ := ih (inv.take sound isReady)
      refine ⟨o', by rw [List.foldlM_cons, took]; exact ran, inv', ended.imp_left fun length => ?_⟩
      simp only [length, Sequencing.take, List.length_append, List.length_cons, List.length_nil]
      omega
    · obtain ⟨o', ran, inv', ended⟩ := ih inv
      refine ⟨o', by rw [List.foldlM_cons, stays]; exact ran, inv', .inr ?_⟩
      -- A state in which none is ready stays as it is.
      have same : o' = o := by
        clear ih inv' ended
        induction turns with
        | nil =>
          cases ran
          rfl
        | cons _ turns ih =>
          rw [List.foldlM_cons, stays] at ran
          exact ih ran
      rw [same, stuck]

end Sequencing

namespace Graph

variable {g : Graph Int}

theorem pairwise_lt_mergeSort {ids : List Int} (nodup : ids.Nodup) :
    (ids.mergeSort fun a b => decide (a ≤ b)).Pairwise (· < ·) := by
  have distinct : (ids.mergeSort fun a b => decide (a ≤ b)).Nodup :=
    (List.mergeSort_perm _ _).nodup_iff.mpr nodup
  apply ((List.pairwise_mergeSort' (· ≤ ·) ids).and distinct).imp
  rintro a b ⟨below, different⟩
  have le : a ≤ b := below
  omega

/-- There is an order of all nodes, or the ids that no order can take are reported, in ascending
order. -/
theorem fullOrder_cases (sound : g.Sound) :
    (g.Acyclic ∧ ∃ order, g.fullOrder = .ok order ∧ order.Perm g.ids ∧ g.Ordered order) ∨
    (¬ g.Acyclic ∧ ∃ stuck : List Int, stuck.Pairwise (· < ·) ∧
      (∀ id, id ∈ stuck ↔ id ∈ g.ids ∧ ¬ Acc g.Feeds id) ∧
      g.fullOrder = writing stuck (.error (.cycle (stuck.map .int)))) := by
  obtain ⟨o, ran, inv, ended⟩ := Sequencing.steps sound g.nodes (.start g)
  have length : o.taken.length + o.remaining.length = g.nodes.length := by
    simpa [ids] using inv.perm.length_eq
  rw [fullOrder, ran, Outcome.ok_bind]
  by_cases empty : o.remaining = []
  · left
    have perm : o.taken.Perm g.ids := by simpa [empty] using inv.perm
    refine ⟨⟨fun id => ⟨id, fun a feeds => ?_⟩⟩, o.taken, by simp [empty]; rfl, perm, inv.ordered⟩
    exact inv.ordered.acc a (perm.mem_iff.mpr (sound.mem_ids feeds).1)
  · right
    have stuck : o.ready = [] := by
      rcases ended with taken | stuck
      · simp only [List.length_nil, Nat.zero_add] at taken
        exact absurd (List.eq_nil_of_length_eq_zero (by omega)) empty
      · exact stuck
    have split : ∀ id, id ∈ g.ids ∧ id ∉ o.taken ↔ id ∈ g.ids ∧ ¬ Acc g.Feeds id := by
      intro id
      refine and_congr_right fun member => ⟨fun outside => ?_, fun never taken => ?_⟩
      · exact inv.not_acc sound stuck id
          ((List.mem_append.mp (inv.perm.mem_iff.mpr member)).resolve_left outside)
      · exact never (inv.ordered.acc id taken)
    obtain ⟨id, left⟩ := List.exists_mem_of_ne_nil _ empty
    refine ⟨fun acyclic => inv.not_acc sound stuck id left (acyclic.apply id),
      (g.ids.filter fun id => !o.taken.contains id).mergeSort fun a b => decide (a ≤ b),
      pairwise_lt_mergeSort (sound.nodup.filter _), ?_, ?_⟩
    · intro id
      rw [← split]
      simp
    · rw [if_neg (by simpa using empty)]
      rfl

/-- A path of links leads from one node to another, or they are the same. -/
abbrev LeadsTo (g : Graph Int) : Int → Int → Prop := Relation.ReflTransGen g.Feeds

theorem nodup_eraseDups (ids : List Int) : ids.eraseDups.Nodup := by
  induction length : ids.length using Nat.strongRecOn generalizing ids with
  | ind n ih =>
    cases ids with
    | nil => simp
    | cons a rest =>
      rw [List.eraseDups_cons, List.nodup_cons]
      refine ⟨by simp, ih _ ?_ _ rfl⟩
      have := List.length_filter_le (fun b => !b == a) rest
      rw [← length, List.length_cons]
      omega

theorem mem_feeding_iff {id a : Int} : a ∈ feeding g.links id ↔ g.Feeds a id := by
  simp only [feeding, List.mem_eraseDups, List.mem_map, List.mem_filter, beq_iff_eq, Feeds]
  constructor
  · rintro ⟨l, ⟨member, target⟩, source⟩
    exact ⟨l, member, source, target⟩
  · rintro ⟨l, member, source, target⟩
    exact ⟨l, ⟨member, target⟩, source⟩

end Graph

namespace Walk

variable {g : Graph Int} {id : Int} {turns : Nat} {w : Walk Int}

/-- The state of a walk back from a node: what it found leads there, and all that feeds what it
found is found unless it is still to be gone on from. -/
structure Walking (g : Graph Int) (id : Int) (turns : Nat) (w : Walk Int) : Prop where
  nodup : w.found.Nodup
  leads : ∀ a ∈ w.found, Relation.TransGen g.Feeds a id
  known : ∀ a ∈ w.pending, a = id ∨ a ∈ w.found
  closed : ∀ b, b = id ∨ b ∈ w.found → b ∈ w.pending ∨ ∀ a, g.Feeds a b → a ∈ w.found
  count : w.pending = [] ∨ turns + w.pending.length = w.found.length + 1

theorem Walking.start (g : Graph Int) (id : Int) : Walking g id 0 { pending := [id] } where
  nodup := .nil
  leads := by simp
  known := by simp
  closed := by
    rintro b (rfl | member)
    · simp
    · simp at member
  count := .inr rfl

theorem Walking.step (inv : Walking g id turns w) :
    Walking g id (turns + 1) (w.step g.links) := by
  unfold Walk.step
  split
  · rename_i done
    exact ⟨inv.nodup, inv.leads, inv.known, inv.closed, .inl done⟩
  · rename_i b rest next
    have mem_fresh : ∀ a, a ∈ (Graph.feeding g.links b).filter (fun a => !w.found.contains a) ↔
        g.Feeds a b ∧ a ∉ w.found := by
      intro a
      simp [Graph.mem_feeding_iff]
    refine ⟨?_, ?_, ?_, ?_, ?_⟩
    · rw [List.nodup_append]
      refine ⟨inv.nodup, (Graph.nodup_eraseDups _).filter _, ?_⟩
      rintro a old a' new rfl
      exact ((mem_fresh a).mp new).2 old
    · intro a member
      rcases List.mem_append.mp member with member | new
      · exact inv.leads a member
      · have feeds := ((mem_fresh a).mp new).1
        rcases inv.known b (by simp [next]) with rfl | found
        · exact .single feeds
        · exact .head feeds (inv.leads b found)
    · intro a member
      rcases List.mem_append.mp member with new | member
      · exact .inr (List.mem_append_right _ (List.mem_reverse.mp new))
      · exact (inv.known a (by simp [next, member])).imp_right (List.mem_append_left _)
    · intro c member
      by_cases same : c = b
      · subst same
        refine .inr fun a feeds => ?_
        by_cases old : a ∈ w.found
        · exact List.mem_append_left _ old
        · exact List.mem_append_right _ ((mem_fresh a).mpr ⟨feeds, old⟩)
      · by_cases new : c ∈ (Graph.feeding g.links b).filter (fun a => !w.found.contains a)
        · exact .inl (List.mem_append_left _ (List.mem_reverse.mpr new))
        · have old : c = id ∨ c ∈ w.found :=
            member.imp_right fun inside => (List.mem_append.mp inside).resolve_right new
          rcases inv.closed c old with pending | found
          · rw [next] at pending
            exact .inl (List.mem_append_right _ ((List.mem_cons.mp pending).resolve_left same))
          · exact .inr fun a feeds => List.mem_append_left _ (found a feeds)
    · have count := inv.count.resolve_left (by simp [next])
      simp only [next, List.length_cons, List.length_append, List.length_reverse] at count ⊢
      omega

theorem Walking.steps (inv : Walking g id turns w) {α : Type} (more : List α) :
    Walking g id (turns + more.length) (more.foldl (fun w _ => w.step g.links) w) := by
  induction more generalizing turns w with
  | nil => exact inv
  | cons _ more ih =>
    have rest := ih inv.step
    rwa [Nat.add_assoc, Nat.add_comm 1] at rest

/-- A walk finds each source of a link at most once, so it is over after one turn for each link and
one for the start. -/
theorem Walking.pending_eq_nil (inv : Walking g id (g.links.length + 1) w) : w.pending = [] := by
  have sources : w.found ⊆ g.links.map (·.source) := by
    intro a member
    obtain ⟨b, ⟨l, inside, source, _⟩, _⟩ := Relation.TransGen.head'_iff.mp (inv.leads a member)
    exact List.mem_map.mpr ⟨l, inside, source⟩
  have bound := (List.subperm_of_subset inv.nodup sources).length_le
  rcases inv.count with done | count
  · exact done
  · rw [List.length_map] at bound
    exact List.eq_nil_of_length_eq_zero (by omega)

end Walk

namespace Graph

variable {g : Graph Int}

theorem mem_ancestors (g : Graph Int) (id : Int) :
    ∃ found, g.ancestors id = .ok found ∧
      ∀ a, a ∈ found ↔ Relation.TransGen g.Feeds a id ∧ a ≠ id := by
  have inv := (Walk.Walking.start g id).step.steps g.links
  rw [Nat.zero_add, Nat.add_comm] at inv
  have done := inv.pending_eq_nil
  refine ⟨_, rfl, fun a => ?_⟩
  rw [List.mem_mergeSort, List.mem_filter, bne_iff_ne]
  refine and_congr_left fun other => ⟨inv.leads a, fun path => ?_⟩
  clear other
  have closed : ∀ b, b = id ∨ b ∈ _ → ∀ a, g.Feeds a b → a ∈ _ := fun b member =>
    (inv.closed b member).resolve_left (by simp [done])
  induction path using Relation.TransGen.head_induction_on with
  | single feeds => exact closed id (.inl rfl) _ feeds
  | head feeds _ ih => exact closed _ (.inr ih) _ feeds

/-- The order of the nodes that a sink needs: exactly those that lead to it, once each. -/
theorem order_eq_ok {sink : Int} {all : List Int} (sound : g.Sound) (present : sink ∈ g.ids)
    (full : g.fullOrder = .ok all) (perm : all.Perm g.ids) (ordered : g.Ordered all) :
    ∃ order, g.order (some sink) = .ok order ∧ order.Nodup ∧ g.Ordered order ∧
      ∀ id, id ∈ order ↔ g.LeadsTo id sink := by
  obtain ⟨found, ran, members⟩ := g.mem_ancestors sink
  have live : ∀ id, (sink :: found).contains id = true ↔ g.LeadsTo id sink := by
    intro id
    rw [List.contains_iff_mem, List.mem_cons, members, LeadsTo,
      Relation.reflTransGen_iff_eq_or_transGen]
    rw [eq_comm (a := sink)]
    by_cases same : id = sink <;> simp [same]
  refine ⟨all.filter (sink :: found).contains, ?_, ?_, ?_, ?_⟩
  · simp only [order, full, ran, Outcome.ok_bind]
    rfl
  · exact (perm.nodup_iff.mpr sound.nodup).filter _
  · refine ordered.filter fun b a feeds leads => ?_
    exact (live a).mpr (.head feeds ((live b).mp leads))
  · intro id
    rw [List.mem_filter, live]
    refine ⟨And.right, fun leads => ⟨perm.mem_iff.mpr ?_, leads⟩⟩
    rcases leads.cases_head with rfl | ⟨b, feeds, _⟩
    · exact present
    · exact (sound.mem_ids feeds).1

end Graph

end ShaderFlow
