import Mathlib.Algebra.Order.BigOperators.Group.Finset
import ShaderFlow.Proofs.Session.Turn

set_option autoImplicit false

namespace ShaderFlow

variable {ι : Type}

namespace Stage

/-- How often a task can still change its stage. -/
def ahead : Stage ι → Nat
  | .fresh _ => 3
  | .waiting .. => 2
  | .running .. => 1
  | .ended _ => 0

/-- The nodes that a task has yet to run in the pass it is at. -/
def nodesLeft : Stage ι → Nat
  | .running _ e _ => e.pending.length
  | _ => 0

end Stage

namespace Session

/-- No pass is scheduled or under way. -/
def Idle (s : Session ι) : Prop :=
  ∀ t stage, s.stage? t = some stage → ∃ outcome, stage = .ended outcome

variable {s s' : Session ι} {d t : Nat}

/-- A measure of the stage of a task. -/
def measureAt (s : Session ι) (f : Stage ι → Nat) (u : Nat) : Nat := ((s.stage? u).map f).getD 0

/-- A measure of stages, summed over all tasks. -/
def total (s : Session ι) (f : Stage ι → Nat) : Nat :=
  ∑ u ∈ Finset.range s.tasks.length, s.measureAt f u

theorem total_aside {f : Stage ι → Nat} (same : Aside s s') : s'.total f = s.total f := by
  unfold total measureAt
  rw [same.tasks, same.stage?_eq]

theorem measureAt_congr {f : Stage ι → Nat} {u : Nat} (same : s'.stage? u = s.stage? u) :
    s'.measureAt f u = s.measureAt f u := by rw [measureAt, same, measureAt]

theorem total_eq {f : Stage ι → Nat} {old new : Stage ι} (tasks : s'.tasks.length = s.tasks.length)
    (before : s.stage? t = some old) (after : s'.stage? t = some new) (same : f new = f old)
    (others : ∀ u, u ≠ t → s'.measureAt f u = s.measureAt f u) : s'.total f = s.total f := by
  unfold total
  rw [tasks]
  refine Finset.sum_congr rfl fun u _ => ?_
  by_cases mine : u = t
  · rw [mine, measureAt, measureAt, before, after, Option.map_some, Option.map_some, same]
  · exact others u mine

/-- A sum gets less when one task counts less and no other one more. -/
theorem total_lt {f : Stage ι → Nat} {old new : Stage ι} (tasks : s'.tasks.length = s.tasks.length)
    (before : s.stage? t = some old) (after : s'.stage? t = some new) (less : f new < f old)
    (others : ∀ u, u ≠ t → s'.measureAt f u ≤ s.measureAt f u) : s'.total f < s.total f := by
  have drops : s'.measureAt f t < s.measureAt f t := by
    rw [measureAt, measureAt, before, after]
    exact less
  unfold total
  rw [tasks]
  refine Finset.sum_lt_sum ?_ ⟨t, Finset.mem_range.mpr (lt_of_stage? before), drops⟩
  intro u _
  by_cases mine : u = t
  · rw [mine]
    exact drops.le
  · exact others u mine

variable [BEq ι] [NodeId ι]

/-- A job makes some task change its stage for good, or run a node, or is a chore. -/
theorem take_job_lt (ranks : s.Ranks d none) (busy : s.queue ≠ []) :
    (s.take (.job 0)).total Stage.ahead < s.total Stage.ahead ∨
      (s.take (.job 0)).total Stage.ahead = s.total Stage.ahead ∧
        ((s.take (.job 0)).total Stage.nodesLeft < s.total Stage.nodesLeft ∨
          (s.take (.job 0)).total Stage.nodesLeft = s.total Stage.nodesLeft ∧
            (s.take (.job 0)).backlog < s.backlog) := by
  have takes := take_takes ranks (.job 0)
  generalize s.take (.job 0) = s' at takes
  cases takes with
  | aside same chore =>
    obtain ⟨-, missing | lighter⟩ := chore 0 rfl
    · exact absurd (List.getElem?_eq_none_iff.mp missing)
        (by simpa [List.length_eq_zero_iff] using busy)
    · exact .inr ⟨total_aside same, .inr ⟨total_aside same, lighter⟩⟩
  | spawned observers calm same asked => exact absurd rfl (asked 0)
  | @queued _ t given previous _ queued fresh undone last same =>
    obtain ⟨log, rfl⟩ := same
    have stages := stage?_queueUp fresh 0 previous
    refine .inl (total_lt (List.length_modify ..) fresh ((stages _).trans (if_pos rfl)) ?_ ?_)
    · exact Nat.lt_succ_self 2
    · intro u other
      exact Nat.le_of_eq (measureAt_congr ((stages u).trans (if_neg other)))
  | @ran _ t size cancelled result _ queued source line frame effect =>
    cases effect with
    | suspended ranks' same fewer stages results =>
      have mine := (stages t).trans (if_pos rfl)
      have others : ∀ (f : Stage ι → Nat) u, u ≠ t → s'.measureAt f u = s.measureAt f u :=
        fun f u other => measureAt_congr ((stages u).trans (if_neg other))
      have less : ∀ {old : Stage ι}, s.stage? t = some old → 1 < old.ahead →
          s'.total Stage.ahead < s.total Stage.ahead := fun before more =>
        total_lt frame.tasks before mine more fun u other => (others _ u other).le
      cases source with
      | opened before => exact .inl (less before (by simp [Stage.ahead]))
      | started before => exact .inl (less before (by simp [Stage.ahead]))
      | continued before =>
        refine .inr ⟨total_eq frame.tasks before mine rfl (others _), .inl ?_⟩
        exact total_lt frame.tasks before mine fewer fun u other => (others _ u other).le
    | ended ranks' settles mine others results first =>
      have others : ∀ u, u ≠ t → s'.measureAt Stage.ahead u ≤ s.measureAt Stage.ahead u := by
        intro u other
        rcases others u other with same | ⟨given, asleep, ready⟩
        · exact Nat.le_of_eq (measureAt_congr same)
        · rw [measureAt, measureAt, asleep, ready]
          exact Nat.le_refl 2
      obtain ⟨old, before, more⟩ : ∃ old, s.stage? t = some old ∧ 0 < old.ahead := by
        cases source with
        | opened before => exact ⟨_, before, by simp [Stage.ahead]⟩
        | started before => exact ⟨_, before, by simp [Stage.ahead]⟩
        | continued before => exact ⟨_, before, by simp [Stage.ahead]⟩
      exact .inl (total_lt frame.tasks before mine more others)

/-- Jobs run until none is left. -/
theorem exists_drained (s : Session ι) (d : Nat) (ranks : s.Ranks d none) :
    ∃ jobs, (s.play (List.replicate jobs (.job 0))).queue = [] := by
  by_cases busy : s.queue = []
  · exact ⟨0, busy⟩
  · have less := take_job_lt ranks busy
    obtain ⟨d', -, ranks'⟩ := ranks.takes (take_takes ranks (.job 0))
    obtain ⟨jobs, drained⟩ := exists_drained (s.take (.job 0)) d' ranks'
    exact ⟨jobs + 1, drained⟩
termination_by (s.total Stage.ahead, s.total Stage.nodesLeft, s.backlog)
decreasing_by simpa [Prod.lex_def] using less

omit [BEq ι] [NodeId ι] in
/-- Nobody is in line when the queue is empty. -/
theorem Ranks.all_done (ranks : s.Ranks d none) (drained : s.queue = []) : d = s.passes.length := by
  by_contra undone
  have inside : d < s.passes.length := by
    have := ranks.le
    omega
  obtain ⟨t, held | ⟨stage, present, fronts⟩⟩ := ranks.front inside
  · cases held
  · have unqueued : s.dues t = 0 := by simp [dues, drained]
    have fits := ranks.stages present (by simp)
    cases stage with
    | fresh | ended => exact fronts
    | running k e count => exact absurd (unqueued.symm.trans fits.1) (by decide)
    | waiting k given wake =>
      cases wake with
      | asleep | cancelled => exact fronts
      | ready => exact absurd (unqueued.symm.trans fits.1) (by decide)

omit [BEq ι] [NodeId ι] in
theorem Ranks.idle_of_drained (ranks : s.Ranks d none) (drained : s.queue = []) : s.Idle := by
  intro t stage present
  have unqueued : s.dues t = 0 := by simp [dues, drained]
  have fits := ranks.stages present (by simp)
  cases stage with
  | ended outcome => exact ⟨outcome, rfl⟩
  | fresh given => exact absurd (unqueued.symm.trans fits) (by decide)
  | running k e count => exact absurd (unqueued.symm.trans fits.1) (by decide)
  | waiting k given wake =>
    cases wake with
    | cancelled => exact fits.elim
    | ready => exact absurd (unqueued.symm.trans fits.1) (by decide)
    | asleep =>
      obtain ⟨-, j, p, -, behind, found, -⟩ := fits
      have within := (ranks.numbered.exists_iff j).mp ⟨p, found⟩
      rw [ranks.all_done drained] at behind
      omega

end Session

end ShaderFlow
