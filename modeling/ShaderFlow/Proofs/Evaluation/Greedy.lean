import Mathlib.Data.List.Lex
import ShaderFlow.Proofs.Evaluation.Order

set_option autoImplicit false

/-
An order that always goes on with the smallest id that could come next is the first of all sequences
of its ids, so it is settled by them and by what feeds them. The order of all nodes is of this form,
and so is the part of it that a sink needs.
-/

namespace ShaderFlow

/-- Each id comes after all it needs, and before every smaller one only if that one needs something
that has not come yet. -/
structure Greedy (needs : Int → Int → Prop) (order : List Int) : Prop where
  sequenced : Sequenced id needs order
  least : ∀ front a back, order = front ++ a :: back →
    ∀ b ∈ back, (∀ c, needs b c → c ∈ front) → a ≤ b

namespace Greedy

variable {needs needs' : Int → Int → Prop} {order order' : List Int}

/-- A greedy order comes before every other sequence that starts alike and goes on with the same
ids. -/
theorem append_eq_or_lex {front xs ys : List Int} (greedy : Greedy needs (front ++ xs))
    (sequenced : Sequenced id needs (front ++ ys)) (perm : xs.Perm ys) :
    xs = ys ∨ List.Lex (· < ·) xs ys := by
  induction xs generalizing front ys with
  | nil => exact .inl perm.nil_eq
  | cons a xs ih =>
    cases ys with
    | nil => exact absurd perm.eq_nil (by simp)
    | cons b ys =>
      by_cases same : a = b
      · subst same
        have split : ∀ zs : List Int, front ++ a :: zs = front ++ [a] ++ zs := by simp
        rw [split] at greedy sequenced
        apply (ih greedy sequenced (List.perm_cons a |>.mp perm)).imp
        · exact congrArg (a :: ·)
        · exact .cons
      · -- The id that the other sequence takes here could have come next in the greedy one.
        have later : b ∈ xs :=
          (List.mem_cons.mp (perm.mem_iff.mpr List.mem_cons_self)).resolve_left (Ne.symm same)
        have met : ∀ c, needs b c → c ∈ front := by simpa using sequenced front b ys rfl
        have below : a ≤ b := greedy.least front a xs rfl b later met
        exact .inr (.rel (by omega))

theorem eq_or_lex {other : List Int} (greedy : Greedy needs order)
    (sequenced : Sequenced id needs other) (perm : order.Perm other) :
    order = other ∨ List.Lex (· < ·) order other := by
  rw [← List.nil_append order] at greedy
  rw [← List.nil_append other] at sequenced
  exact greedy.append_eq_or_lex sequenced perm

/-- Two greedy orders of the same ids are the same, for neither comes before the other. -/
theorem unique (greedy : Greedy needs order) (greedy' : Greedy needs order')
    (perm : order.Perm order') : order = order' := by
  rcases greedy.eq_or_lex greedy'.sequenced perm with same | before
  · exact same
  · rcases greedy'.eq_or_lex greedy.sequenced perm.symm with same | after
    · exact same.symm
    · exact absurd after (asymm before)

/-- Only what the ids of an order need matters. -/
theorem congr (greedy : Greedy needs order) (same : ∀ a ∈ order, ∀ b, needs' a b ↔ needs a b) :
    Greedy needs' order where
  sequenced := by
    intro front a back split b need
    exact greedy.sequenced front a back split b ((same a (by simp [split]) b).mp need)
  least := by
    intro front a back split b later met
    refine greedy.least front a back split b later fun c need => met c ?_
    exact (same b (by simp [split, later]) c).mpr need

/-- A part that holds all that it needs is greedy by itself. -/
theorem filter {p : Int → Bool} (greedy : Greedy needs order)
    (closed : ∀ a b, needs a b → p a = true → p b = true) : Greedy needs (order.filter p) where
  sequenced := greedy.sequenced.filter closed
  least := by
    intro front a back split b later met
    obtain ⟨whole, rest, rfl, rfl, split'⟩ := List.filter_eq_append_iff.mp split
    obtain ⟨skipped, back', rfl, -, -, rfl⟩ := List.filter_eq_cons_iff.mp split'
    refine greedy.least (whole ++ skipped) a back' (by simp) b (List.mem_filter.mp later).1 ?_
    intro c need
    exact List.mem_append_left _ (List.mem_filter.mp (met c need)).1

end Greedy

namespace Sequencing

variable {g : Graph Int} {o o' : Sequencing Int}

/-- Each id taken was the smallest of those that could come next. -/
def Least (g : Graph Int) (o : Sequencing Int) : Prop :=
  ∀ front a back, o.taken = front ++ a :: back →
    ∀ b ∈ back ++ o.remaining, (∀ c, g.Feeds c b → c ∈ front) → a ≤ b

theorem Least.take {id : Int} (inv : Sorting g o) (least : Least g o)
    (smallest : o.ready.min? = some id) : Least g (o.take id) := by
  have kept : ∀ b ∈ (o.take id).remaining, b ∈ o.remaining := by
    intro b left
    simp only [Sequencing.take, List.map_id'' (fun a => written_eq _ a)] at left
    exact (List.mem_filter.mp left).1
  have present : id ∈ o.remaining := (inv.mem_ready_iff.mp (List.min?_mem smallest)).1
  intro front a back split b later met
  have taken : o.taken ++ [id] = front ++ a :: back := split
  rcases List.eq_nil_or_concat back with rfl | ⟨back, last, rfl⟩
  · -- The id just taken is the least of those ready, and this one was ready.
    obtain ⟨rfl, same⟩ := List.append_inj' taken rfl
    cases same
    have isReady : b ∈ o.ready := inv.mem_ready_iff.mpr ⟨kept b later, met⟩
    exact (List.min?_eq_some_iff.mp smallest).2 b isReady
  · rw [List.concat_eq_append, ← List.cons_append, ← List.append_assoc] at taken
    obtain ⟨before, same⟩ := List.append_inj' taken rfl
    cases same
    refine least front a back before b ?_ met
    rw [List.concat_eq_append, List.append_assoc, List.mem_append] at later
    refine List.mem_append.mpr (later.imp_right fun later => ?_)
    rcases List.mem_append.mp later with same | left
    · rwa [List.mem_singleton.mp same]
    · exact kept b left

theorem Least.step (sound : g.Sound) (inv : Sorting g o) (least : Least g o)
    (stepped : o.step = .ok o') : Sorting g o' ∧ Least g o' := by
  cases smallest : o.ready.min? with
  | none =>
    simp only [Sequencing.step, NodeId.least?, smallest, Outcome.ok_bind] at stepped
    cases stepped
    exact ⟨inv, least⟩
  | some id =>
    simp only [Sequencing.step, NodeId.least?, smallest, Outcome.ok_bind] at stepped
    cases stepped
    exact ⟨inv.take sound (List.min?_mem smallest), least.take inv smallest⟩

theorem Least.steps (sound : g.Sound) {α : Type} (turns : List α) (inv : Sorting g o)
    (least : Least g o) (ran : turns.foldlM (fun o _ => o.step) o = .ok o') : Least g o' := by
  induction turns generalizing o with
  | nil =>
    cases ran
    exact least
  | cons turn turns ih =>
    rw [List.foldlM_cons] at ran
    obtain ⟨next, stepped, ran⟩ := Outcome.bind_eq_ok_iff.mp ran
    obtain ⟨inv, least⟩ := least.step sound inv stepped
    exact ih inv least ran

end Sequencing

namespace Graph

variable {g : Graph Int}

/-- The nodes that feed a node are what it needs. -/
abbrev needs (g : Graph Int) (target source : Int) : Prop := g.Feeds source target

theorem greedy_fullOrder {order : List Int} (sound : g.Sound) (full : g.fullOrder = .ok order)
    (ordered : g.Ordered order) : Greedy g.needs order := by
  obtain ⟨o, ran, -⟩ := Sequencing.steps sound g.nodes (.start g)
  have least : Sequencing.Least g o :=
    Sequencing.Least.steps sound g.nodes (.start g) (by intro; simp) ran
  rw [fullOrder, ran, Outcome.ok_bind] at full
  by_cases empty : o.remaining = []
  · have taken : o.taken = order := by
      simp only [empty, List.isEmpty_nil, if_true] at full
      cases full
      rfl
    subst taken
    refine ⟨ordered, fun front a back split b later met => ?_⟩
    exact least front a back split b (by simpa [empty] using later) met
  · -- With nodes left there is no order.
    simp only [List.isEmpty_iff, empty, if_false] at full
    obtain ⟨_, _, full⟩ := Outcome.bind_eq_ok_iff.mp full
    obtain ⟨_, _, full⟩ := Outcome.bind_eq_ok_iff.mp full
    cases full

/-- The order of the nodes that a sink needs: those that lead to it, once each, always the smallest
next. -/
theorem exists_greedy_order (sound : g.Sound) (acyclic : g.Acyclic) {sink : Int}
    (present : sink ∈ g.ids) :
    ∃ order, g.order (some sink) = .ok order ∧ order.Nodup ∧ Greedy g.needs order ∧
      ∀ id, id ∈ order ↔ g.LeadsTo id sink := by
  rcases fullOrder_cases sound with ⟨-, all, full, perm, ordered⟩ | ⟨cyclic, -⟩
  · obtain ⟨order, chosen, nodup, -, members⟩ := order_eq_ok sound present full perm ordered
    refine ⟨order, chosen, nodup, ?_, members⟩
    obtain ⟨found, ran, -⟩ := g.mem_ancestors sink
    simp only [Graph.order, full, ran, Outcome.ok_bind] at chosen
    cases chosen
    have leads : ∀ {id}, id ∈ all → (sink :: found).contains id = true → g.LeadsTo id sink :=
      fun inside live => (members _).mp (List.mem_filter.mpr ⟨inside, live⟩)
    refine (greedy_fullOrder sound full ordered).filter fun b a feeds live => ?_
    have inAll := perm.mem_iff.mpr (sound.mem_ids feeds).2
    exact (List.mem_filter.mp ((members a).mpr (.head feeds (leads inAll live)))).2
  · exact absurd acyclic cyclic

end Graph

end ShaderFlow
