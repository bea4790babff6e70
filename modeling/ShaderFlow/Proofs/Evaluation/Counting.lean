import ShaderFlow.Proofs.Evaluation.Order

set_option autoImplicit false

/-
The order of all nodes by counting. Each id has a count of the links into it from ids that were not
taken yet, and waits to be taken once the count is down to zero. The ids in waiting are those that
no link enters any more, so counting takes the same ids in the same order.
-/

namespace ShaderFlow

/-- An order under way: the ids taken so far, how many links still enter each id, and the ids that
wait to be taken. -/
structure Counting where
  taken : List Int := []
  entering : Int → Int
  waiting : List Int

namespace Counting

/-- Takes one link into an id out of the count. After the last one the id is in waiting. -/
def release (c : Counting) (id : Int) : Counting where
  taken := c.taken
  entering := Function.update c.entering id (c.entering id - 1)
  waiting := if c.entering id - 1 = 0 then id :: c.waiting else c.waiting

/-- The ids that the links out of an id lead to, one for each link. -/
def downstream (links : List (Link Int)) (id : Int) : List Int :=
  (links.filter (·.source == id)).map Link.target

/-- Takes an id out of waiting. -/
def pop (c : Counting) (id : Int) : Counting where
  taken := c.taken ++ [id]
  entering := c.entering
  waiting := c.waiting.erase id

/-- Takes the smallest id in waiting, if there is one, and all links out of it. -/
def step (links : List (Link Int)) (c : Counting) : Counting :=
  match c.waiting.min? with
  | some id => (downstream links id).foldl release (c.pop id)
  | none => c

def start (g : Graph Int) : Counting :=
  let entering (id : Int) : Int := g.links.countP (·.target == id)
  { entering, waiting := g.ids.filter (entering · == 0) }

section Release

variable {ids : List Int} {c : Counting} {id : Int}

@[simp] theorem entering_release_self (c : Counting) (id : Int) :
    (c.release id).entering id = c.entering id - 1 :=
  Function.update_self ..

theorem entering_release_of_ne {a : Int} (other : a ≠ id) :
    (c.release id).entering a = c.entering a :=
  Function.update_of_ne other ..

theorem mem_waiting_release {a : Int} :
    a ∈ (c.release id).waiting ↔ a ∈ c.waiting ∨ a = id ∧ c.entering id = 1 := by
  unfold release
  dsimp only
  split
  · rename_i last
    rw [List.mem_cons, or_comm, and_iff_left (by omega)]
  · rename_i more
    exact (or_iff_left fun waits => more (by omega)).symm

theorem enough_release (enough : ∀ a, ((id :: ids).count a : Int) ≤ c.entering a) (a : Int) :
    (ids.count a : Int) ≤ (c.release id).entering a := by
  have here := enough a
  by_cases same : a = id
  · subst same
    rw [List.count_cons_self] at here
    rw [entering_release_self]
    omega
  · rwa [entering_release_of_ne same, ← List.count_cons_of_ne (Ne.symm same)]

theorem taken_foldl_release (ids : List Int) (c : Counting) :
    (ids.foldl release c).taken = c.taken := by
  induction ids generalizing c with
  | nil => rfl
  | cons id ids ih => exact ih (c.release id)

theorem entering_foldl_release (ids : List Int) (c : Counting) (a : Int) :
    (ids.foldl release c).entering a = c.entering a - ids.count a := by
  induction ids generalizing c with
  | nil => simp
  | cons id ids ih =>
    rw [List.foldl_cons, ih]
    by_cases same : a = id
    · subst same
      rw [entering_release_self, List.count_cons_self]
      omega
    · rw [entering_release_of_ne same, List.count_cons_of_ne (Ne.symm same)]

/-- No more links are taken out than there are. So an id comes to wait just when all links into it
are among them. -/
theorem mem_waiting_foldl_release (enough : ∀ a, (ids.count a : Int) ≤ c.entering a) (a : Int) :
    a ∈ (ids.foldl release c).waiting ↔ a ∈ c.waiting ∨ a ∈ ids ∧ c.entering a = ids.count a := by
  induction ids generalizing c with
  | nil => simp
  | cons id ids ih =>
    rw [List.foldl_cons, ih (enough_release enough), mem_waiting_release, or_assoc]
    refine or_congr_right ?_
    by_cases same : a = id
    · subst same
      have left := enough_release enough a
      rw [entering_release_self] at left ⊢
      rw [List.count_cons_self, and_iff_right rfl, and_iff_right List.mem_cons_self]
      -- This is the last link into the id, or there is another one behind it.
      constructor
      · rintro (last | ⟨-, all⟩) <;> omega
      · intro all
        by_cases again : a ∈ ids
        · exact .inr ⟨again, by omega⟩
        · rw [List.count_eq_zero.mpr again] at all
          exact .inl (by omega)
    · rw [entering_release_of_ne same, List.count_cons_of_ne (Ne.symm same)]
      simp [same]

theorem nodup_waiting_foldl_release (enough : ∀ a, (ids.count a : Int) ≤ c.entering a)
    (nodup : c.waiting.Nodup) (free : ∀ a ∈ c.waiting, c.entering a = 0) :
    (ids.foldl release c).waiting.Nodup := by
  induction ids generalizing c with
  | nil => exact nodup
  | cons id ids ih =>
    have entered : 1 ≤ c.entering id := by
      have := enough id
      rw [List.count_cons_self] at this
      omega
    have outside : id ∉ c.waiting := fun waits => by
      have := free id waits
      omega
    refine ih (enough_release enough) ?_ ?_
    · unfold release
      dsimp only
      split
      · exact List.nodup_cons.mpr ⟨outside, nodup⟩
      · exact nodup
    · intro a waits
      rcases mem_waiting_release.mp waits with waits | ⟨rfl, last⟩
      · have other : a ≠ id := fun same => outside (same ▸ waits)
        rw [entering_release_of_ne other, free a waits]
      · rw [entering_release_self, last]
        rfl

end Release

/-- Counting keeps track of an order: it has taken the same ids, counts the links that are left, and
has those in waiting that are ready. -/
structure Tracks (c : Counting) (o : Sequencing Int) : Prop where
  taken : c.taken = o.taken
  entering : ∀ id, c.entering id = o.links.countP (·.target == id)
  nodup : c.waiting.Nodup
  waiting : ∀ id, id ∈ c.waiting ↔ id ∈ o.ready

theorem mem_ready_iff_countP {o : Sequencing Int} {id : Int} :
    id ∈ o.ready ↔ id ∈ o.remaining ∧ o.links.countP (·.target == id) = 0 := by
  simp [Sequencing.ready, List.countP_eq_zero]

theorem tracks_start {g : Graph Int} (sound : g.Sound) :
    Tracks (start g) { remaining := g.ids, links := g.links } where
  taken := rfl
  entering _ := rfl
  nodup := sound.nodup.filter _
  waiting id := by simp [start, mem_ready_iff_countP]

namespace Tracks

open Sequencing

variable {g : Graph Int} {c : Counting} {o : Sequencing Int} {id : Int}

theorem min?_eq (tracks : Tracks c o) : c.waiting.min? = o.ready.min? := by
  cases smallest : o.ready.min? with
  | none =>
    rw [List.min?_eq_none_iff] at smallest ⊢
    exact List.eq_nil_iff_forall_not_mem.mpr fun id waits => by
      simpa [smallest] using (tracks.waiting id).mp waits
  | some id =>
    rw [List.min?_eq_some_iff] at smallest ⊢
    exact ⟨(tracks.waiting id).mpr smallest.1,
      fun b waits => smallest.2 b ((tracks.waiting b).mp waits)⟩

/-- The links out of an id that is ready lead to other ids that are left. -/
theorem mem_remaining_of_downstream (sound : g.Sound) (inv : Sorting g o) (isReady : id ∈ o.ready)
    {a : Int} (member : a ∈ downstream g.links id) : a ∈ o.remaining ∧ a ≠ id := by
  obtain ⟨left, fed⟩ := inv.mem_ready_iff.mp isReady
  have outside := inv.not_mem_taken sound left
  obtain ⟨l, out, rfl⟩ := List.mem_map.mp member
  obtain ⟨inside, same⟩ := List.mem_filter.mp out
  have feeds : g.Feeds id l.target := ⟨l, inside, by simpa using same, rfl⟩
  constructor
  · have present := inv.perm.mem_iff.mpr (sound.mem_ids feeds).2
    refine (List.mem_append.mp present).resolve_left fun taken => outside ?_
    simpa using inv.ordered.mem_of_needs taken feeds
  · intro self
    rw [self] at feeds
    exact outside (fed id feeds)

/-- Taking an id takes the links out of it from the count. -/
theorem countP_links_take (inv : Sorting g o) (outside : id ∉ o.taken) (a : Int) :
    o.links.countP (·.target == a) =
      (downstream g.links id).count a + (o.take id).links.countP (·.target == a) := by
  have out : o.links.filter (·.source == id) = g.links.filter (·.source == id) := by
    rw [inv.links_eq, List.filter_filter]
    refine List.filter_congr fun l _ => ?_
    by_cases same : l.source = id
    · simp [same, outside]
    · simp [same]
  rw [downstream, List.count, List.countP_map, ← out,
    List.countP_eq_countP_filter_add o.links _ (·.source == id)]
  congr 2

theorem take (sound : g.Sound) (inv : Sorting g o) (tracks : Tracks c o) (isReady : id ∈ o.ready) :
    Tracks ((downstream g.links id).foldl release (c.pop id)) (o.take id) := by
  obtain ⟨left, -⟩ := inv.mem_ready_iff.mp isReady
  have split := countP_links_take inv (inv.not_mem_taken sound left)
  have enough : ∀ a, ((downstream g.links id).count a : Int) ≤ (c.pop id).entering a := by
    intro a
    rw [pop, tracks.entering, split]
    omega
  refine ⟨?_, ?_, nodup_waiting_foldl_release enough (tracks.nodup.erase id) ?_, ?_⟩
  · rw [taken_foldl_release, pop, tracks.taken]
    rfl
  · intro a
    rw [entering_foldl_release, pop, tracks.entering, split]
    omega
  · intro a waits
    obtain ⟨-, free⟩ := mem_ready_iff_countP.mp
      ((tracks.waiting a).mp (List.mem_of_mem_erase waits))
    rw [pop, tracks.entering, free]
    rfl
  · intro a
    rw [mem_waiting_foldl_release enough, pop, tracks.nodup.mem_erase_iff, tracks.waiting,
      mem_ready_iff_countP, mem_ready_iff_countP, remaining_take, List.mem_filter, tracks.entering]
    have here := split a
    constructor
    · rintro (⟨other, remains, free⟩ | ⟨member, all⟩)
      · exact ⟨⟨remains, by simpa using other⟩, by omega⟩
      · obtain ⟨remains, other⟩ := mem_remaining_of_downstream sound inv isReady member
        exact ⟨⟨remains, by simpa using other⟩, by omega⟩
    · rintro ⟨⟨remains, other⟩, free⟩
      by_cases member : a ∈ downstream g.links id
      · exact .inr ⟨member, by omega⟩
      · have unfed := List.count_eq_zero.mpr member
        exact .inl ⟨by simpa using other, remains, by omega⟩

theorem step (sound : g.Sound) (inv : Sorting g o) (tracks : Tracks c o) :
    ∃ o', o.step = .ok o' ∧ Sorting g o' ∧ Tracks (c.step g.links) o' := by
  unfold Counting.step Sequencing.step
  rw [tracks.min?_eq]
  cases smallest : o.ready.min? with
  | none =>
    refine ⟨o, ?_, inv, tracks⟩
    simp only [NodeId.least?, smallest, Outcome.ok_bind]
    rfl
  | some id =>
    have isReady := List.min?_mem smallest
    refine ⟨o.take id, ?_, inv.take sound isReady, tracks.take sound inv isReady⟩
    simp only [NodeId.least?, smallest, Outcome.ok_bind]
    rfl

/-- Counting keeps track of an order through all its steps. -/
theorem steps (sound : g.Sound) {α : Type} (turns : List α) (inv : Sorting g o)
    (tracks : Tracks c o) :
    ∃ o', turns.foldlM (fun o _ => o.step) o = .ok o' ∧ Sorting g o' ∧
      Tracks (turns.foldl (fun c _ => c.step g.links) c) o' := by
  induction turns generalizing c o with
  | nil => exact ⟨o, rfl, inv, tracks⟩
  | cons turn turns ih =>
    obtain ⟨next, ran, inv', tracks'⟩ := tracks.step sound inv
    obtain ⟨o', rest, kept⟩ := ih inv' tracks'
    exact ⟨o', by rw [List.foldlM_cons, ran]; exact rest, kept⟩

end Tracks

end Counting

namespace Graph

open Sequencing

variable {g : Graph Int}

/-- The count after as many steps as there are nodes. -/
def counting (g : Graph Int) : Counting := g.nodes.foldl (fun c _ => c.step g.links) (.start g)

/-- The order of all nodes is the one that counting finds. After as many steps as there are nodes no
id is in waiting, and if fewer ids are taken then the others are reported. -/
theorem fullOrder_eq_counting (sound : g.Sound) :
    g.counting.waiting = [] ∧
      g.fullOrder =
        if g.counting.taken.length < g.nodes.length then do
          let left ← NodeId.sortBy id (g.ids.filter fun id => !g.counting.taken.contains id)
          writing left (.error (.cycle (left.map .int)))
        else .ok g.counting.taken := by
  obtain ⟨o, ran, inv, tracks⟩ :=
    Counting.Tracks.steps sound g.nodes (.start g) (Counting.tracks_start sound)
  obtain ⟨o', ran', -, ended⟩ := Sequencing.steps sound g.nodes (.start g)
  obtain rfl : o = o' := Except.ok.inj (ran.symm.trans ran')
  have length : o.taken.length + o.remaining.length = g.nodes.length := by
    simpa [ids] using inv.perm.length_eq
  have stuck : o.ready = [] := by
    rcases ended with all | stuck
    · simp only [List.length_nil, Nat.zero_add] at all
      simp [ready, List.eq_nil_of_length_eq_zero (show o.remaining.length = 0 by omega)]
    · exact stuck
  constructor
  · exact List.eq_nil_iff_forall_not_mem.mpr fun id waits => by
      simpa [stuck] using (tracks.waiting id).mp waits
  · have taken : g.counting.taken = o.taken := tracks.taken
    rw [fullOrder, ran, Outcome.ok_bind, taken]
    by_cases empty : o.remaining = []
    · rw [empty, List.length_nil, Nat.add_zero] at length
      rw [if_pos (by simpa using empty), if_neg (by omega)]
      rfl
    · have more := List.length_pos_iff.mpr empty
      rw [if_neg (by simpa using empty), if_pos (by omega)]
      rfl

end Graph

end ShaderFlow
