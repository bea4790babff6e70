import Mathlib.Data.List.Sort
import Mathlib.Order.WellFoundedSet
import ShaderFlow.Proofs.Evaluation.Order

set_option autoImplicit false

/-
The ids that no order can take are those on a cycle of links and those that a path leads to from
one. So there is an order exactly when no links lead in a circle, and otherwise these ids are
reported, whichever sink was asked for.
-/

namespace ShaderFlow.Graph

variable {g : Graph Int}

/-- A path of links leads from a node back to it. -/
def OnCycle (g : Graph Int) (id : Int) : Prop := Relation.TransGen g.Feeds id id

/-- A node is on a cycle, or a path leads to it from one. -/
def BehindCycle (g : Graph Int) (id : Int) : Prop := ∃ c, g.OnCycle c ∧ g.LeadsTo c id

theorem OnCycle.behindCycle {id : Int} (cycle : g.OnCycle id) : g.BehindCycle id :=
  ⟨id, cycle, .refl⟩

theorem BehindCycle.feed {a b : Int} (behind : g.BehindCycle a) (feeds : g.Feeds a b) :
    g.BehindCycle b := by
  obtain ⟨c, cycle, path⟩ := behind
  exact ⟨c, cycle, path.tail feeds⟩

theorem BehindCycle.exists_feeds {id : Int} (behind : g.BehindCycle id) : ∃ a, g.Feeds a id := by
  obtain ⟨c, cycle, path⟩ := behind
  obtain ⟨a, -, feeds⟩ := Relation.TransGen.tail'_iff.mp (cycle.trans_left path)
  exact ⟨a, feeds⟩

theorem not_onCycle_of_acc {id : Int} (acc : Acc g.Feeds id) : ¬ g.OnCycle id := by
  have above : Acc (Relation.TransGen g.Feeds) id := acc.transGen
  clear acc
  induction above with
  | intro id _ ih => exact fun cycle => ih id cycle cycle

/-- Following links backwards from behind a cycle need not come to an end. -/
theorem BehindCycle.not_acc {id : Int} (behind : g.BehindCycle id) : ¬ Acc g.Feeds id := by
  obtain ⟨c, cycle, path⟩ := behind
  intro acc
  exact not_onCycle_of_acc (acc.inv_of_transGen (cycle.trans_left path)) cycle

/-- A path leads from one node to another that is not behind a cycle. -/
def LeadsFreely (g : Graph Int) (a b : Int) : Prop :=
  Relation.TransGen g.Feeds a b ∧ ¬ g.BehindCycle b

instance (g : Graph Int) : IsStrictOrder Int g.LeadsFreely where
  irrefl := fun _ path => path.2 (OnCycle.behindCycle path.1)
  trans := fun _ _ _ first second => ⟨first.1.trans second.1, second.2⟩

/-- There are finitely many nodes, so following links backwards ends where it cannot go in circles.
-/
theorem acc_of_not_behindCycle (sound : g.Sound) {id : Int} (present : id ∈ g.ids)
    (free : ¬ g.BehindCycle id) : Acc g.Feeds id := by
  have wellFounded : {a | a ∈ g.ids}.WellFoundedOn g.LeadsFreely :=
    (List.finite_toSet g.ids).wellFoundedOn
  revert free
  apply wellFounded.induction present
  intro b _ ih free
  constructor
  intro a feeds
  apply ih a (sound.mem_ids feeds).1
  · exact ⟨.single feeds, free⟩
  · exact fun behind => free (behind.feed feeds)

theorem stuck_iff (sound : g.Sound) (id : Int) :
    id ∈ g.ids ∧ ¬ Acc g.Feeds id ↔ g.BehindCycle id := by
  constructor
  · rintro ⟨present, never⟩
    by_contra free
    exact never (acc_of_not_behindCycle sound present free)
  · intro behind
    obtain ⟨a, feeds⟩ := behind.exists_feeds
    exact ⟨(sound.mem_ids feeds).2, behind.not_acc⟩

theorem acyclic_iff (sound : g.Sound) : g.Acyclic ↔ ¬ ∃ id, g.OnCycle id := by
  constructor
  · rintro acyclic ⟨id, cycle⟩
    exact cycle.behindCycle.not_acc (acyclic.apply id)
  · intro free
    refine ⟨fun id => ⟨id, fun a feeds => ?_⟩⟩
    apply acc_of_not_behindCycle sound (sound.mem_ids feeds).1
    rintro ⟨c, cycle, -⟩
    exact free ⟨c, cycle⟩

/-- The part of an order that a sink needs is always found. -/
theorem exists_order {all : List Int} (full : g.fullOrder = .ok all) (sink : Option Int) :
    ∃ order, g.order sink = .ok order := by
  cases sink with
  | none => exact ⟨all, full⟩
  | some id =>
    obtain ⟨found, ran, -⟩ := g.mem_ancestors id
    refine ⟨all.filter (id :: found).contains, ?_⟩
    simp only [order, full, ran, Outcome.ok_bind]
    rfl

/-- With a cycle somewhere, all ids behind cycles are reported, whatever the sink needs. -/
theorem order_of_cycle (sound : g.Sound) (cycle : ∃ id, g.OnCycle id) (sink : Option Int) :
    ∃ stuck : List Int, stuck.Pairwise (· < ·) ∧ (∀ id, id ∈ stuck ↔ g.BehindCycle id) ∧
      g.order sink = writing stuck (.error (.cycle (stuck.map .int))) := by
  rcases fullOrder_cases sound with ⟨acyclic, -⟩ | ⟨-, stuck, ascending, members, full⟩
  · exact absurd cycle ((acyclic_iff sound).mp acyclic)
  · refine ⟨stuck, ascending, fun id => (members id).trans (stuck_iff sound id), ?_⟩
    cases sink with
    | none => exact full
    | some id => rw [order, full, writing_bind, Outcome.error_bind]

theorem exists_order_of_not_onCycle (sound : g.Sound) (free : ¬ ∃ id, g.OnCycle id)
    (sink : Option Int) : ∃ order, g.order sink = .ok order := by
  rcases fullOrder_cases sound with ⟨-, all, full, -⟩ | ⟨cyclic, -⟩
  · exact exists_order full sink
  · exact absurd ((acyclic_iff sound).mpr free) cyclic

/-- A cycle is reported when the ids in the report can be written. -/
theorem writing_eq_cycle_iff {α : Type} (ids : List Int) (reported : List Json) :
    writing ids (.error (.cycle (ids.map .int)) : Except Error α) = .error (.cycle reported) ↔
      (∀ id ∈ ids, Writable id) ∧ reported = ids.map .int := by
  rcases writing_cases ids (.error (.cycle (ids.map .int)) : Except Error α) with
    ⟨writable, written⟩ | ⟨⟨id, member, long⟩, failed⟩
  · rw [written]
    constructor
    · intro same
      cases same
      exact ⟨writable, rfl⟩
    · rintro ⟨-, rfl⟩
      rfl
  · rw [failed]
    constructor
    · intro same
      cases same
    · rintro ⟨writable, -⟩
      exact absurd (writable id member) long

/-- For every sink there is an order exactly when no node is on a cycle. Otherwise the ids behind
cycles are reported in ascending order; the report writes them down, so this takes ids that can be
written. -/
theorem order_reports_behindCycle (sound : g.Sound) (sink : Option Int) :
    ∃ stuck : List Int, stuck.Pairwise (· < ·) ∧ (∀ id, id ∈ stuck ↔ g.BehindCycle id) ∧
      ((∃ id, g.OnCycle id) ↔
        g.order sink = writing stuck (.error (.cycle (stuck.map .int)))) ∧
      (∀ reported, g.order sink = .error (.cycle reported) ↔
        (∃ id, g.OnCycle id) ∧ (∀ id ∈ stuck, Writable id) ∧ reported = stuck.map .int) ∧
      ((¬ ∃ id, g.OnCycle id) ↔ ∃ order, g.order sink = .ok order) := by
  by_cases cycle : ∃ id, g.OnCycle id
  · obtain ⟨stuck, ascending, members, failed⟩ := order_of_cycle sound cycle sink
    refine ⟨stuck, ascending, members, ⟨fun _ => failed, fun _ => cycle⟩, ?_, ?_⟩
    · intro reported
      rw [failed, writing_eq_cycle_iff, and_iff_right cycle]
    · constructor
      · exact fun free => absurd cycle free
      · rintro ⟨order, made⟩
        exact absurd (failed.symm.trans made) (writing_error_ne_ok _ _ _)
  · obtain ⟨order, made⟩ := exists_order_of_not_onCycle sound cycle sink
    refine ⟨[], .nil, ?_, ?_, ?_, ⟨fun _ => ⟨order, made⟩, fun _ => cycle⟩⟩
    · intro id
      constructor
      · intro member
        cases member
      · rintro ⟨c, onCycle, -⟩
        exact absurd ⟨c, onCycle⟩ cycle
    · constructor
      · exact fun some => absurd some cycle
      · intro failed
        exact absurd (failed.symm.trans made) (writing_error_ne_ok _ _ _)
    · intro reported
      rw [made]
      constructor
      · intro same
        cases same
      · exact fun some => absurd some.1 cycle

/-- An inverter and a blend that feed each other, one of them twice. The video comes before them,
one canvas behind them and another beside them. -/
def ringed : List Edit :=
  let place (id : Int) (kind : String) : Edit :=
    .add (.str kind) (.arr [.int 0, .int 0]) (.obj []) (some id)
  let join (source target : Int) (input : String) : Edit :=
    .connect ⟨source, .str "color", target, .str input⟩
  [place 3 "Canvas", place 4 "Blend Colors", place 1 "Webcam", place 2 "Invert Color",
    place 5 "Canvas", join 1 4 "colorA", join 4 2 "color", join 2 4 "colorA", join 2 4 "colorB",
    join 2 3 "color"]

theorem order_reports_behindCycle_ringed :
    (run {} ringed).Sound ∧
      (run {} ringed).order (some 5) = .error (.cycle [.int 2, .int 3, .int 4]) := by
  have sound : (run {} ringed).Sound := sound_run (.empty _ _) ringed
  have around : (run {} ringed).Feeds 2 4 ∧ (run {} ringed).Feeds 4 2 ∧
      (run {} ringed).Feeds 2 3 := by
    unfold Feeds
    decide +kernel
  have targets : ∀ l ∈ (run {} ringed).links, l.target ∈ [2, 3, 4] := by decide +kernel
  have cycle : (run {} ringed).OnCycle 2 := .tail (.single around.1) around.2.1
  have behind : ∀ id, (run {} ringed).BehindCycle id ↔ id ∈ [2, 3, 4] := by
    intro id
    constructor
    · intro behind
      obtain ⟨a, l, member, -, rfl⟩ := behind.exists_feeds
      exact targets l member
    · have second := cycle.behindCycle
      simp only [List.mem_cons, List.not_mem_nil, or_false]
      rintro (rfl | rfl | rfl)
      · exact second
      · exact second.feed around.2.2
      · exact second.feed around.1
  obtain ⟨stuck, ascending, members, -, reported, -⟩ := order_reports_behindCycle sound (some 5)
  obtain rfl : stuck = [2, 3, 4] := by
    apply List.Pairwise.eq_of_mem_iff ascending (by decide)
    intro id
    rw [members, behind]
  have writable : ∀ id ∈ [(2 : Int), 3, 4], Writable id := by
    simp only [writable_iff]
    decide +kernel
  exact ⟨sound, (reported _).mpr ⟨⟨2, cycle⟩, writable, rfl⟩⟩

/-- A node behind the one with the longest id that can be written. It feeds itself; adding and
linking it fail, but it stays and so does the link. -/
def selfFed : List Edit :=
  [.add (.str "Invert Color") (.arr [.int 0, .int 0]) (.obj []) (some (Json.integerBound - 1)),
    .add (.str "Invert Color") (.arr [.int 0, .int 0]) (.obj []) none,
    .connect ⟨Json.integerBound, .str "color", Json.integerBound, .str "color"⟩]

/-- Two nodes that feed each other, one with a number for its id and one with a text. -/
def mixedIds : Graph Json :=
  let place (g : Graph Json) (id : Json) :=
    (g.addNode (.str "Invert Color") (.arr [.int 0, .int 0]) (.obj []) (some id)).1
  let join (g : Graph Json) (source target : Json) :=
    (g.connect ⟨source, .str "color", target, .str "color"⟩).1
  join (join (place (place {} (.int 1)) (.str "a")) (.int 1) (.str "a")) (.str "a") (.int 1)

/-- Neither cycle is reported: the one id cannot be written, and the others have no order. -/
theorem cycle_unreported_selfFed_mixedIds :
    ((run {} selfFed).Sound ∧ (run {} selfFed).OnCycle Json.integerBound ∧
        ∀ sink, (run {} selfFed).order sink = .error unwritable) ∧
      ((mixedIds.links.map fun l => (l.source, l.target)) =
          [(.int 1, .str "a"), (.str "a", .int 1)] ∧
        ∃ reason, mixedIds.order none = .error (.misuse .shape reason)) := by
  have sound : (run {} selfFed).Sound := sound_run (.empty _ _) selfFed
  have feeds : (run {} selfFed).Feeds Json.integerBound Json.integerBound := by
    unfold Feeds
    decide +kernel
  have cycle : (run {} selfFed).OnCycle Json.integerBound := .single feeds
  refine ⟨⟨sound, cycle, fun sink => ?_⟩, ?_, ?_⟩
  · obtain ⟨stuck, -, members, failed⟩ := order_of_cycle sound ⟨_, cycle⟩ sink
    rw [failed]
    rcases writing_cases stuck (.error (.cycle (stuck.map .int)) : Except Error (List Int)) with
      ⟨writable, -⟩ | ⟨-, unwritten⟩
    · exact absurd (writable _ ((members _).mpr cycle.behindCycle)) not_writable_integerBound
    · exact unwritten
  · rfl
  · exact ⟨_, rfl⟩

end ShaderFlow.Graph
