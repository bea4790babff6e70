import Mathlib.Data.List.Perm.Basic
import ShaderFlow.Proofs.Session.Pass
import ShaderFlow.Proofs.Session.Request

set_option autoImplicit false

/-
Passes that are not done stand in a line. Only the first of them can run; each other one is
cancelled by its successor, which waits for it. So at most one pass runs at a time, and it runs when
all passes before it are done.
-/

namespace ShaderFlow

variable {ι : Type}

namespace Stage

/-- Whether a task is about to run its pass, or in the middle of it. -/
def Fronts : Stage ι → Prop
  | .waiting _ _ .ready | .running .. => True
  | _ => False

end Stage

namespace Session

/-- Passes are numbered from one. -/
def Numbered (s : Session ι) : Prop := s.passes.map Pass.id = List.range' 1 s.passes.length

/-- How often a task stands in the queue. -/
def dues (s : Session ι) (t : Nat) : Nat := s.queue.count (.resume t)

/-- Whether a task runs the first pass that is not done. The task in hand is taken to do so. -/
def Fronting (s : Session ι) (hand : Option Nat) (t : Nat) : Prop :=
  hand = some t ∨ ∃ stage, s.stage? t = some stage ∧ stage.Fronts

/-- How the stage of a task agrees with the queue and the passes, of which the first `d` are done.
-/
def StageFits (s : Session ι) (d t : Nat) : Stage ι → Prop
  | .fresh _ => s.dues t = 1
  | .waiting k _ .asleep =>
    s.dues t = 0 ∧ ∃ j p, k = j + 1 ∧ d < j ∧ s.pass? j = some p ∧ p.waiters = [t]
  | .waiting k _ .ready | .running k _ _ => s.dues t = 1 ∧ k = d + 1 ∧ d < s.passes.length
  | .waiting _ _ .cancelled => False
  | .ended _ => s.dues t = 0

/-- A task that nobody cancels, and whose end starts no other task. -/
def Quiet (task : Task ι) : Prop :=
  task.cancelRequested = false ∧ ∀ u, .resume u ∉ task.observers

/-- The first `d` passes are done and the others stand in line. Each of these but the last one is
cancelled, and only the first one can run. -/
structure PassOrder (s : Session ι) (d : Nat) : Prop where
  numbered : s.Numbered
  le : d ≤ s.passes.length
  done : ∀ {k p}, s.pass? k = some p → p.done = decide (k ≤ d)
  settled : ∀ {k p}, s.pass? k = some p → k ≤ d →
    p.state = .committed ∧ p.cancelled = false ∨ p.state = .aborted
  unsettled : ∀ {k p}, s.pass? k = some p → d < k → p.state = .idle ∨ p.state = .running ∧ k = d + 1
  cancelled : ∀ {k p}, s.pass? k = some p → d < k → p.cancelled = decide (k < s.passes.length)
  unwaited : ∀ {k p}, s.pass? k = some p → k ≤ d ∨ k = s.passes.length → p.waiters = []

/-- The tasks stand in line as their passes do. Between the steps of a task it is in hand: it runs
the first pass in line, whatever its stage says. -/
structure Ranks (s : Session ι) (d : Nat) (hand : Option Nat) : Prop extends PassOrder s d where
  waited : ∀ {k p}, s.pass? k = some p → d < k → k < s.passes.length →
    ∃ t given, p.waiters = [t] ∧ s.stage? t = some (.waiting (k + 1) given .asleep) ∧ hand ≠ some t
  idle : ∀ {t k given wake p}, s.stage? t = some (.waiting k given wake) → hand ≠ some t →
    s.pass? k = some p → p.state = .idle
  quiet : ∀ {t task}, s.task? t = some task → Quiet task
  stages : ∀ {t stage}, s.stage? t = some stage → hand ≠ some t → s.StageFits d t stage
  queued : ∀ t, s.tasks.length ≤ t → s.dues t = 0
  held : ∀ {t}, hand = some t → d < s.passes.length ∧ t < s.tasks.length ∧ s.dues t = 0
  front : d < s.passes.length → ∃ t, s.Fronting hand t
  sole : ∀ {t u}, s.Fronting hand t → s.Fronting hand u → t = u

variable {s s' : Session ι} {d t : Nat} {hand : Option Nat}

section Views

/-- The session with one job taken out of its queue. -/
def taken (s : Session ι) (i : Nat) : Session ι := { s with queue := s.queue.eraseIdx i }

theorem Numbered.exists_iff (numbered : s.Numbered) (k : Nat) :
    (∃ p, s.pass? k = some p) ↔ 1 ≤ k ∧ k ≤ s.passes.length := by
  rw [← Option.isSome_iff_exists, pass?, List.find?_isSome]
  have member : (∃ p ∈ s.passes, (p.id == k) = true) ↔ k ∈ s.passes.map Pass.id := by simp
  rw [member, show s.passes.map Pass.id = _ from numbered, List.mem_range'_1]
  omega

theorem Numbered.pass?_eq_some (numbered : s.Numbered) {p : Pass} (member : p ∈ s.passes) :
    s.pass? p.id = some p := by
  have nodup : (s.passes.map Pass.id).Nodup := by
    rw [show s.passes.map Pass.id = _ from numbered]
    exact List.nodup_range'
  cases found : s.pass? p.id with
  | none => simpa using List.find?_eq_none.mp found p member
  | some q =>
    have same : q.id = p.id := by simpa using List.find?_some found
    rw [List.inj_on_of_nodup_map nodup (List.mem_of_find?_eq_some found) member same]

theorem Numbered.current?_eq (numbered : s.Numbered) : s.current? = s.pass? s.passes.length := by
  cases last : s.passes.getLast? with
  | none =>
    have empty : s.passes = [] := List.getLast?_eq_none_iff.mp last
    rw [current?, last, pass?, empty]
    rfl
  | some p =>
    have member : p ∈ s.passes := List.mem_of_getLast? last
    have named : some p.id = (List.range' 1 s.passes.length).getLast? := by
      rw [← show s.passes.map Pass.id = _ from numbered, List.getLast?_map, last, Option.map_some]
    have several : s.passes.length ≠ 0 := by
      intro none
      rw [List.length_eq_zero_iff.mp none] at member
      cases member
    rw [List.getLast?_range', if_neg several] at named
    have id : p.id = s.passes.length := by
      have := Option.some.inj named
      omega
    rw [current?, last, ← numbered.pass?_eq_some member, id]

theorem Numbered.addPass (numbered : s.Numbered) : s.addPass.Numbered := by
  unfold Numbered Session.addPass
  simp only [List.map_append, List.map_cons, List.map_nil, List.length_append, List.length_cons,
    List.length_nil]
  rw [show s.passes.map Pass.id = _ from numbered, List.range'_1_concat, Nat.add_comm 1]

theorem Numbered.pass?_addPass (numbered : s.Numbered) (k : Nat) :
    s.addPass.pass? k =
      if k = s.passes.length + 1 then some { id := s.passes.length + 1 } else s.pass? k := by
  have old := numbered.exists_iff k
  simp only [pass?, Session.addPass, List.find?_append] at old ⊢
  by_cases new : k = s.passes.length + 1
  · have absent : s.passes.find? (·.id == k) = none := by
      rw [Option.eq_none_iff_forall_ne_some]
      intro p found
      have := old.mp ⟨p, found⟩
      omega
    rw [if_pos new, absent, new]
    simp
  · have other : (s.passes.length + 1 == k) = false := by simpa using Ne.symm new
    rw [if_neg new]
    simp [other]

theorem Numbered.modifyPass (numbered : s.Numbered) (k : Nat) {f : Pass → Pass}
    (keeps : ∀ p, (f p).id = p.id) : (s.modifyPass k f).Numbered := by
  unfold Numbered Session.modifyPass
  simp only [List.map_map, List.length_map]
  rw [← show s.passes.map Pass.id = _ from numbered]
  apply List.map_congr_left
  intro p _
  simp only [Function.comp_apply]
  split
  · exact keeps p
  · rfl

theorem task?_modifyTask (s : Session ι) (t : Nat) (f : Task ι → Task ι) (u : Nat) :
    (s.modifyTask t f).task? u = if u = t then (s.task? u).map f else s.task? u := by
  simp only [task?, modifyTask, List.getElem?_modify]
  by_cases same : t = u <;> simp [same, eq_comm]

/-- What a change of one task keeps holds of all tasks afterwards. -/
theorem of_task?_modifyTask {P : Task ι → Prop} {f : Task ι → Task ι} {u : Nat} {task : Task ι}
    (found : (s.modifyTask t f).task? u = some task)
    (all : ∀ {u task}, s.task? u = some task → P task) (keeps : ∀ task, P task → P (f task)) :
    P task := by
  rw [task?_modifyTask] at found
  split at found
  · obtain ⟨old, there, rfl⟩ := Option.map_eq_some_iff.mp found
    exact keeps old (all there)
  · exact all found

theorem stage?_modifyTask (s : Session ι) (t : Nat) (f : Task ι → Task ι) (u : Nat) :
    (s.modifyTask t f).stage? u =
      if u = t then (s.task? u).map fun task => (f task).stage else s.stage? u := by
  rw [stage?, task?_modifyTask]
  split
  · rw [Option.map_map]
    rfl
  · rfl

@[simp] theorem task?_modifyPass (s : Session ι) (k : Nat) (f : Pass → Pass) :
    (s.modifyPass k f).task? = s.task? := rfl

@[simp] theorem stage?_modifyPass (s : Session ι) (k : Nat) (f : Pass → Pass) :
    (s.modifyPass k f).stage? = s.stage? := rfl

@[simp] theorem task?_push (s : Session ι) (jobs : List Job) : (s.push jobs).task? = s.task? := rfl

@[simp] theorem stage?_push (s : Session ι) (jobs : List Job) :
    (s.push jobs).stage? = s.stage? := rfl

@[simp] theorem dues_modifyTask (s : Session ι) (t : Nat) (f : Task ι → Task ι) :
    (s.modifyTask t f).dues = s.dues := rfl

@[simp] theorem dues_modifyPass (s : Session ι) (k : Nat) (f : Pass → Pass) :
    (s.modifyPass k f).dues = s.dues := rfl

@[simp] theorem task?_addPass (s : Session ι) : s.addPass.task? = s.task? := rfl

@[simp] theorem task?_taken (s : Session ι) (i : Nat) : (s.taken i).task? = s.task? := rfl

@[simp] theorem pass?_taken (s : Session ι) (i : Nat) : (s.taken i).pass? = s.pass? := rfl

theorem dues_push (s : Session ι) (jobs : List Job) (t : Nat) :
    (s.push jobs).dues t = s.dues t + jobs.count (.resume t) := by
  rw [dues, push, List.count_append, dues]

theorem count_resume (t u : Nat) :
    List.count (.resume u) [Job.resume t] = if u = t then 1 else 0 := by
  by_cases same : u = t
  · simp [same]
  · have other : t ≠ u := Ne.symm same
    simp [same, other]

theorem dues_taken {i : Nat} {job : Job} (queued : s.queue[i]? = some job) (t : Nat) :
    s.dues t = (s.taken i).dues t + if job = .resume t then 1 else 0 := by
  obtain ⟨inside, there⟩ := List.getElem?_eq_some_iff.mp queued
  have same := (List.getElem_cons_eraseIdx_perm inside).count_eq (.resume t)
  rw [dues, ← same, there, List.count_cons, dues, taken]
  simp

end Views

section Preservation

theorem StageFits.mono {stage : Stage ι} (fits : s.StageFits d t stage)
    (dues : s'.dues t = s.dues t) (more : s.passes.length ≤ s'.passes.length)
    (waits : ∀ j p, d < j → s.pass? j = some p → p.waiters = [t] →
      ∃ p', s'.pass? j = some p' ∧ p'.waiters = [t]) : s'.StageFits d t stage := by
  cases stage with
  | fresh given => exact dues.trans fits
  | ended outcome => exact dues.trans fits
  | running k e count =>
    obtain ⟨once, named, inside⟩ := fits
    exact ⟨dues.trans once, named, by omega⟩
  | waiting k given wake =>
    cases wake with
    | cancelled => exact fits
    | ready =>
      obtain ⟨once, named, inside⟩ := fits
      exact ⟨dues.trans once, named, by omega⟩
    | asleep =>
      obtain ⟨none, j, p, named, behind, found, waited⟩ := fits
      obtain ⟨p', found', waited'⟩ := waits j p behind found waited
      exact ⟨dues.trans none, j, p', named, behind, found', waited'⟩

theorem pass?_congr (passes : s'.passes = s.passes) : s'.pass? = s.pass? := by
  funext k
  rw [pass?, passes, pass?]

theorem PassOrder.congr (order : s.PassOrder d) (passes : s'.passes = s.passes) :
    s'.PassOrder d := by
  have pass := pass?_congr passes
  exact {
    numbered := by rw [Numbered, passes]; exact order.numbered
    le := by rw [passes]; exact order.le
    done := by rw [pass]; exact order.done
    settled := by rw [pass]; exact order.settled
    unsettled := by rw [pass]; exact order.unsettled
    cancelled := by rw [pass, passes]; exact order.cancelled
    unwaited := by rw [pass, passes]; exact order.unwaited }

/-- Only passes, tasks and the tasks in the queue matter. -/
theorem Ranks.congr (ranks : s.Ranks d hand) (passes : s'.passes = s.passes)
    (tasks : s'.tasks = s.tasks) (dues : ∀ t, s'.dues t = s.dues t) : s'.Ranks d hand := by
  have pass := pass?_congr passes
  have task : s'.task? = s.task? := by
    funext t
    rw [task?, tasks, task?]
  have stage : s'.stage? = s.stage? := by
    funext t
    rw [stage?, task, stage?]
  have fronting : s'.Fronting hand = s.Fronting hand := by
    funext t
    rw [Fronting, stage, Fronting]
  have due : s'.dues = s.dues := funext dues
  refine { ranks.toPassOrder.congr passes with
    waited := by rw [pass, passes, stage]; exact ranks.waited
    idle := by rw [stage, pass]; exact ranks.idle
    quiet := by rw [task]; exact ranks.quiet
    stages := ?stages
    queued := fun t outside => by rw [dues, ranks.queued t (tasks ▸ outside)]
    held := by rw [passes, tasks, due]; exact ranks.held
    front := by rw [passes, fronting]; exact ranks.front
    sole := by rw [fronting]; exact ranks.sole }
  intro t found there free
  rw [stage] at there
  refine (ranks.stages there free).mono (dues t)
    (Nat.le_of_eq (congrArg List.length passes).symm) ?_
  rw [pass]
  exact fun j p _ found waited => ⟨p, found, waited⟩

theorem stage?_eq_some {stage : Stage ι} :
    s.stage? t = some stage ↔ ∃ task, s.task? t = some task ∧ task.stage = stage := by
  simp [stage?]

theorem lt_of_stage? {stage : Stage ι} (present : s.stage? t = some stage) :
    t < s.tasks.length := by
  obtain ⟨task, there, -⟩ := stage?_eq_some.mp present
  exact (List.getElem?_eq_some_iff.mp there).1

/-- A task that runs the first pass in line, or is about to, stands in the queue once. -/
theorem Ranks.dues_of_fronts {stage : Stage ι} (ranks : s.Ranks d hand) (free : hand ≠ some t)
    (present : s.stage? t = some stage) (fronts : stage.Fronts) :
    s.dues t = 1 ∧ d < s.passes.length := by
  have fits := ranks.stages present free
  cases stage with
  | fresh | ended => exact fronts.elim
  | running k e count => exact ⟨fits.1, fits.2.2⟩
  | waiting k given wake =>
    cases wake with
    | asleep | cancelled => exact fronts.elim
    | ready => exact ⟨fits.1, fits.2.2⟩

theorem dues_taken_of_ne {i u : Nat} (queued : s.queue[i]? = some (.resume t)) (different : u ≠ t) :
    (s.taken i).dues u = s.dues u := by
  rw [dues_taken queued u, if_neg (by simpa using Ne.symm different)]
  rfl

theorem dues_taken_of_once {i : Nat} (queued : s.queue[i]? = some (.resume t))
    (once : s.dues t = 1) : (s.taken i).dues t = 0 := by
  have := dues_taken queued t
  rw [if_pos rfl] at this
  omega

theorem dues_taken_of_none {i u : Nat} {job : Job} (queued : s.queue[i]? = some job)
    (none : s.dues u = 0) : (s.taken i).dues u = 0 := by
  have := dues_taken queued u
  omega

/-- Taking the first task in line out of the queue puts it in hand. -/
theorem Ranks.pick {i : Nat} {stage : Stage ι} (ranks : s.Ranks d none)
    (queued : s.queue[i]? = some (.resume t)) (present : s.stage? t = some stage)
    (fronts : stage.Fronts) : (s.taken i).Ranks d (some t) := by
  obtain ⟨once, undone⟩ := ranks.dues_of_fronts (by simp) present fronts
  have first : s.Fronting none t := .inr ⟨stage, present, fronts⟩
  have sole : ∀ {u}, (s.taken i).Fronting (some t) u → u = t := by
    rintro u (held | ⟨stage', present', fronts'⟩)
    · exact (Option.some.inj held).symm
    · exact ranks.sole (.inr ⟨stage', present', fronts'⟩) first
  refine { ranks.toPassOrder.congr rfl with
    waited := ?waited
    idle := fun there _ found => ranks.idle there (by simp) found
    quiet := ranks.quiet
    stages := ?stages
    queued := fun u outside => dues_taken_of_none queued (ranks.queued u outside)
    held := ?held
    front := fun _ => ⟨t, .inl rfl⟩
    sole := fun one two => (sole one).trans (sole two).symm }
  case waited =>
    intro k p found behind before
    obtain ⟨u, given, waited, asleep, _⟩ := ranks.waited found behind before
    refine ⟨u, given, waited, asleep, ?_⟩
    rintro ⟨⟩
    rw [asleep] at present
    cases present
    exact fronts
  case stages =>
    intro u stage' there free
    have different : u ≠ t := fun same => free (by rw [same])
    exact (ranks.stages there (by simp)).mono (dues_taken_of_ne queued different) (Nat.le_refl _)
      fun j p _ found waited => ⟨p, found, waited⟩
  case held =>
    rintro u ⟨⟩
    exact ⟨undone, lt_of_stage? present, dues_taken_of_once queued once⟩

/-- A pass that is opened when all are done is the first in line. -/
theorem PassOrder.addPass (order : s.PassOrder s.passes.length) :
    s.addPass.PassOrder s.passes.length := by
  have length : s.addPass.passes.length = s.passes.length + 1 := List.length_append
  have cases {k p} (there : s.addPass.pass? k = some p) :
      k = s.passes.length + 1 ∧ p = { id := s.passes.length + 1 } ∨
        k ≤ s.passes.length ∧ s.pass? k = some p := by
    rw [order.numbered.pass?_addPass] at there
    split at there
    · exact .inl ⟨‹_›, (Option.some.inj there).symm⟩
    · exact .inr ⟨((order.numbered.exists_iff k).mp ⟨p, there⟩).2, there⟩
  refine ⟨order.numbered.addPass, by omega, ?done, ?settled, ?unsettled, ?cancelled, ?unwaited⟩
  case done =>
    intro k p there
    obtain ⟨rfl, rfl⟩ | ⟨-, old⟩ := cases there
    · exact (decide_eq_false (Nat.not_succ_le_self _)).symm
    · exact order.done old
  case settled =>
    intro k p there within
    obtain ⟨rfl, -⟩ | ⟨-, old⟩ := cases there
    · omega
    · exact order.settled old within
  case unsettled =>
    intro k p there behind
    obtain ⟨-, rfl⟩ | ⟨within, -⟩ := cases there
    · exact .inl rfl
    · omega
  case cancelled =>
    intro k p there behind
    obtain ⟨rfl, rfl⟩ | ⟨within, -⟩ := cases there
    · exact (decide_eq_false (by omega)).symm
    · omega
  case unwaited =>
    intro k p there _
    obtain ⟨-, rfl⟩ | ⟨within, old⟩ := cases there
    · rfl
    · exact order.unwaited old (.inl within)

/-- A new task opens a pass at once when all passes are done. -/
theorem Ranks.enter {i : Nat} {given : Option Json} (ranks : s.Ranks s.passes.length none)
    (queued : s.queue[i]? = some (.resume t)) (fresh : s.stage? t = some (.fresh given)) :
    (s.taken i).addPass.Ranks s.passes.length (some t) := by
  have order : (s.taken i).PassOrder (s.taken i).passes.length := ranks.toPassOrder.congr rfl
  have length : (s.taken i).addPass.passes.length = s.passes.length + 1 := List.length_append
  have sole : ∀ {u}, (s.taken i).addPass.Fronting (some t) u → u = t := by
    rintro u (held | ⟨stage, present, fronts⟩)
    · exact (Option.some.inj held).symm
    · exact absurd (ranks.dues_of_fronts (by simp) present fronts).2 (Nat.lt_irrefl _)
  refine { order.addPass with
    waited := fun there behind before => by omega
    idle := ?idle
    quiet := ranks.quiet
    stages := ?stages
    queued := fun u outside => dues_taken_of_none queued (ranks.queued u outside)
    held := ?held
    front := fun _ => ⟨t, .inl rfl⟩
    sole := fun one two => (sole one).trans (sole two).symm }
  case idle =>
    intro u k given' wake p there _ present
    rw [order.numbered.pass?_addPass] at present
    split at present
    · cases present
      rfl
    · exact ranks.idle there (by simp) present
  case stages =>
    intro u stage there free
    have different : u ≠ t := fun same => free (by rw [same])
    refine (ranks.stages there (by simp)).mono (dues_taken_of_ne queued different) (by omega) ?_
    intro j p behind present
    have := (ranks.numbered.exists_iff j).mp ⟨p, present⟩
    omega
  case held =>
    rintro u ⟨⟩
    exact ⟨by omega, lt_of_stage? fresh, dues_taken_of_once queued (ranks.stages fresh (by simp))⟩

theorem PassOrder.pass?_queueUp {previous : Pass} (order : s.PassOrder d)
    (last : s.pass? s.passes.length = some previous) (i t : Nat) (given : Option Json) (k : Nat) :
    ((s.taken i).queueUp t previous given).pass? k =
      if k = s.passes.length then some { previous with cancelled := true, waiters := [t] }
      else if k = s.passes.length + 1 then some { id := s.passes.length + 1 } else s.pass? k := by
  have named : previous.id = s.passes.length := by simpa using List.find?_some last
  have added : (s.taken i).addPass.pass? k =
      if k = s.passes.length + 1 then some { id := s.passes.length + 1 } else s.pass? k :=
    Numbered.pass?_addPass (s := s.taken i) order.numbered k
  have shown : ((s.taken i).queueUp t previous given).pass? k =
      ((s.taken i).addPass.modifyPass previous.id fun p =>
        { p with cancelled := true, waiters := p.waiters ++ [t] }).pass? k := rfl
  rw [shown, pass?_modifyPass _ _ (by simp), added, named]
  split
  · rename_i here
    rw [if_neg (by omega), here, last, Option.map_some, order.unwaited last (.inr rfl)]
    simp [named]
  · rfl

theorem stage?_queueUp {given : Option Json} (fresh : s.stage? t = some (.fresh given)) (i : Nat)
    (previous : Pass) (u : Nat) :
    ((s.taken i).queueUp t previous given).stage? u =
      if u = t then some (.waiting (s.passes.length + 1) given .asleep) else s.stage? u := by
  obtain ⟨task, there, _⟩ := stage?_eq_some.mp fresh
  rw [queueUp, stage?_modifyTask]
  split
  · rename_i here
    rw [here, task?_modifyPass, task?_addPass, task?_taken, there]
    rfl
  · rfl

theorem length_passes_queueUp (s : Session ι) (i t : Nat) (previous : Pass) (given : Option Json) :
    ((s.taken i).queueUp t previous given).passes.length = s.passes.length + 1 := by
  simp [queueUp, addPass, taken, modifyTask, modifyPass]

section QueueUp

variable {i : Nat} {given : Option Json} {previous : Pass}

/-- The last pass is cancelled, one more is behind it, and the others stay as they were. -/
theorem PassOrder.queueUp_cases (order : s.PassOrder d)
    (last : s.pass? s.passes.length = some previous) {k : Nat} {p : Pass}
    (present : ((s.taken i).queueUp t previous given).pass? k = some p) :
    k = s.passes.length ∧ p = { previous with cancelled := true, waiters := [t] } ∨
      k = s.passes.length + 1 ∧ p = { id := s.passes.length + 1 } ∨
      k < s.passes.length ∧ s.pass? k = some p := by
  rw [order.pass?_queueUp last] at present
  split at present
  · exact .inl ⟨‹_›, (Option.some.inj present).symm⟩
  · split at present
    · exact .inr (.inl ⟨‹_›, (Option.some.inj present).symm⟩)
    · have within := (order.numbered.exists_iff k).mp ⟨p, present⟩
      exact .inr (.inr ⟨by omega, present⟩)

theorem PassOrder.queueUp (order : s.PassOrder d) (undone : d < s.passes.length)
    (last : s.pass? s.passes.length = some previous) :
    ((s.taken i).queueUp t previous given).PassOrder d := by
  have length := s.length_passes_queueUp i t previous given
  refine ⟨?numbered, by omega, ?done, ?settled, ?unsettled, ?cancelled, ?unwaited⟩
  case numbered =>
    exact Numbered.modifyPass (s := (s.taken i).addPass)
      (Numbered.addPass (s := s.taken i) order.numbered) _ (by simp)
  case done =>
    intro k p present
    obtain ⟨rfl, rfl⟩ | ⟨rfl, rfl⟩ | ⟨-, old⟩ := order.queueUp_cases last present
    · exact order.done (p := previous) last
    · exact (decide_eq_false (by omega)).symm
    · exact order.done old
  case settled =>
    intro k p present within
    obtain ⟨rfl, -⟩ | ⟨rfl, -⟩ | ⟨-, old⟩ := order.queueUp_cases last present
    · omega
    · omega
    · exact order.settled old within
  case unsettled =>
    intro k p present behind
    obtain ⟨rfl, rfl⟩ | ⟨-, rfl⟩ | ⟨-, old⟩ := order.queueUp_cases last present
    · exact order.unsettled (p := previous) last undone
    · exact .inl rfl
    · exact order.unsettled old behind
  case cancelled =>
    intro k p present behind
    rw [length]
    obtain ⟨rfl, rfl⟩ | ⟨rfl, rfl⟩ | ⟨before, old⟩ := order.queueUp_cases last present
    · exact (decide_eq_true (Nat.lt_succ_self _)).symm
    · exact (decide_eq_false (Nat.lt_irrefl _)).symm
    · rw [order.cancelled old behind, decide_eq_true before, decide_eq_true (by omega)]
  case unwaited =>
    intro k p present within
    rw [length] at within
    obtain ⟨rfl, -⟩ | ⟨-, rfl⟩ | ⟨before, old⟩ := order.queueUp_cases last present
    · omega
    · rfl
    · exact order.unwaited old (.inl (by omega))

/-- The new task waits for the last pass, and the others stay where they were. -/
theorem stage?_queueUp_cases (fresh : s.stage? t = some (.fresh given)) {u : Nat} {stage : Stage ι}
    (present : ((s.taken i).queueUp t previous given).stage? u = some stage) :
    u = t ∧ stage = .waiting (s.passes.length + 1) given .asleep ∨
      u ≠ t ∧ s.stage? u = some stage := by
  rw [stage?_queueUp fresh] at present
  split at present
  · exact .inl ⟨‹_›, (Option.some.inj present).symm⟩
  · exact .inr ⟨‹_›, present⟩

theorem stage?_queueUp_of_ne (fresh : s.stage? t = some (.fresh given)) {u : Nat} {stage : Stage ι}
    (present : s.stage? u = some stage) (old : stage ≠ .fresh given) :
    ((s.taken i).queueUp t previous given).stage? u = some stage := by
  rw [stage?_queueUp fresh, if_neg, present]
  rintro rfl
  exact old (Option.some.inj (present.symm.trans fresh))

theorem Ranks.waited_queueUp (ranks : s.Ranks d none) (fresh : s.stage? t = some (.fresh given))
    (last : s.pass? s.passes.length = some previous) {k : Nat} {p : Pass}
    (present : ((s.taken i).queueUp t previous given).pass? k = some p) (behind : d < k)
    (before : k < ((s.taken i).queueUp t previous given).passes.length) :
    ∃ u given', p.waiters = [u] ∧ ((s.taken i).queueUp t previous given).stage? u =
      some (.waiting (k + 1) given' .asleep) ∧ none ≠ some u := by
  rw [length_passes_queueUp] at before
  obtain ⟨rfl, rfl⟩ | ⟨rfl, -⟩ | ⟨before, old⟩ := ranks.queueUp_cases last present
  · exact ⟨t, given, rfl, by rw [stage?_queueUp fresh, if_pos rfl], by simp⟩
  · omega
  · obtain ⟨u, given', waited, asleep, free⟩ := ranks.waited old behind before
    exact ⟨u, given', waited, stage?_queueUp_of_ne fresh asleep (by simp), free⟩

theorem Ranks.idle_queueUp (ranks : s.Ranks d none) (fresh : s.stage? t = some (.fresh given))
    (last : s.pass? s.passes.length = some previous) {u k : Nat} {given' : Option Json}
    {wake : Wake} {p : Pass} (there : ((s.taken i).queueUp t previous given).stage? u =
      some (.waiting k given' wake))
    (present : ((s.taken i).queueUp t previous given).pass? k = some p) : p.state = .idle := by
  obtain ⟨-, mine⟩ | ⟨-, old⟩ := stage?_queueUp_cases fresh there
  · cases mine
    obtain ⟨here, -⟩ | ⟨-, rfl⟩ | ⟨within, -⟩ := ranks.queueUp_cases last present
    · omega
    · rfl
    · omega
  · obtain ⟨rfl, rfl⟩ | ⟨-, rfl⟩ | ⟨-, found⟩ := ranks.queueUp_cases last present
    · exact ranks.idle (p := previous) old (by simp) last
    · rfl
    · exact ranks.idle old (by simp) found

theorem Ranks.quiet_queueUp (ranks : s.Ranks d none) {u : Nat} {task : Task ι}
    (present : ((s.taken i).queueUp t previous given).task? u = some task) : Quiet task := by
  rw [Session.queueUp] at present
  exact of_task?_modifyTask present ranks.quiet fun _ calm => calm

theorem Ranks.stages_queueUp (ranks : s.Ranks d none) (queued : s.queue[i]? = some (.resume t))
    (fresh : s.stage? t = some (.fresh given)) (undone : d < s.passes.length)
    (last : s.pass? s.passes.length = some previous) {u : Nat} {stage : Stage ι}
    (present : ((s.taken i).queueUp t previous given).stage? u = some stage) :
    ((s.taken i).queueUp t previous given).StageFits d u stage := by
  have found := ranks.pass?_queueUp last i t given
  obtain ⟨rfl, rfl⟩ | ⟨different, old⟩ := stage?_queueUp_cases fresh present
  · have once : s.dues u = 1 := ranks.stages fresh (by simp)
    exact ⟨dues_taken_of_once queued once, s.passes.length, _, rfl, undone,
      by rw [found, if_pos rfl], rfl⟩
  · refine (ranks.stages old (by simp)).mono (dues_taken_of_ne queued different)
      (by rw [length_passes_queueUp]; omega) ?_
    intro j p behind there waited
    have within := (ranks.numbered.exists_iff j).mp ⟨p, there⟩
    by_cases here : j = s.passes.length
    · subst here
      rw [ranks.unwaited there (.inr rfl)] at waited
      cases waited
    · exact ⟨p, by rw [found, if_neg here, if_neg (by omega), there], waited⟩

theorem fronting_queueUp (fresh : s.stage? t = some (.fresh given)) {u : Nat}
    (first : ((s.taken i).queueUp t previous given).Fronting none u) : s.Fronting none u := by
  obtain ⟨⟨⟩⟩ | ⟨stage, present, fronts⟩ := first
  obtain ⟨-, rfl⟩ | ⟨-, old⟩ := stage?_queueUp_cases fresh present
  · exact fronts.elim
  · exact .inr ⟨stage, old, fronts⟩

/-- A new task gets in line behind the last pass, which is not done. -/
theorem Ranks.queueUp (ranks : s.Ranks d none) (queued : s.queue[i]? = some (.resume t))
    (fresh : s.stage? t = some (.fresh given)) (undone : d < s.passes.length)
    (last : s.pass? s.passes.length = some previous) :
    ((s.taken i).queueUp t previous given).Ranks d none := by
  refine { ranks.toPassOrder.queueUp undone last with
    waited := ranks.waited_queueUp fresh last
    idle := fun there _ present => ranks.idle_queueUp fresh last there present
    quiet := ranks.quiet_queueUp
    stages := fun present _ => ranks.stages_queueUp queued fresh undone last present
    queued := ?queued
    held := fun held => by cases held
    front := ?front
    sole := fun one two => ranks.sole (fronting_queueUp fresh one) (fronting_queueUp fresh two) }
  case queued =>
    intro u outside
    have outside : s.tasks.length ≤ u := by
      simpa [Session.queueUp, modifyTask, modifyPass, addPass, taken] using outside
    exact dues_taken_of_none queued (ranks.queued u outside)
  case front =>
    intro _
    obtain ⟨u, ⟨⟨⟩⟩ | ⟨stage, present, fronts⟩⟩ := ranks.front undone
    refine ⟨u, .inr ⟨stage, stage?_queueUp_of_ne fresh present ?_, fronts⟩⟩
    rintro rfl
    exact fronts

end QueueUp

/-- A task that waits while another one is in hand stands further back in line. -/
theorem Ranks.waiting_behind {u k : Nat} {given : Option Json} {wake : Wake}
    (ranks : s.Ranks d (some t)) (there : s.stage? u = some (.waiting k given wake))
    (free : some t ≠ some u) : d + 1 < k := by
  have fits := ranks.stages there free
  cases wake with
  | cancelled => exact fits.elim
  | ready =>
    have same := ranks.sole (.inl rfl) (.inr ⟨_, there, trivial⟩)
    exact absurd (congrArg some same) free
  | asleep =>
    obtain ⟨-, j, p, named, behind, -⟩ := fits
    omega

/-- All that matters of a pass stays as it is when the first one in line is marked as running, but
the state of that one. -/
theorem begin_cases {k : Nat} {p : Pass} (present : (s.begin (d + 1)).pass? k = some p) :
    ∃ q, s.pass? k = some q ∧ q.done = p.done ∧ q.cancelled = p.cancelled ∧
      q.waiters = p.waiters ∧ (k ≠ d + 1 → q.state = p.state) ∧
      (k = d + 1 → p.state = .running) := by
  have found : (s.begin (d + 1)).pass? k =
      if k = d + 1 then (s.pass? k).map fun p => { p with state := .running } else s.pass? k :=
    pass?_modifyPass s (d + 1) (by simp) k
  rw [found] at present
  split at present
  · rename_i here
    obtain ⟨q, old, rfl⟩ := Option.map_eq_some_iff.mp present
    exact ⟨q, old, rfl, rfl, rfl, fun other => absurd here other, fun _ => rfl⟩
  · rename_i other
    exact ⟨p, present, rfl, rfl, rfl, fun _ => rfl, fun here => absurd here other⟩

theorem length_passes_begin (s : Session ι) (k : Nat) :
    (s.begin k).passes.length = s.passes.length :=
  List.length_map ..

theorem PassOrder.begin (order : s.PassOrder d) : (s.begin (d + 1)).PassOrder d := by
  have length := s.length_passes_begin (d + 1)
  refine ⟨order.numbered.modifyPass _ (by simp), by rw [length]; exact order.le, ?done, ?settled,
    ?unsettled, ?cancelled, ?unwaited⟩
  case done =>
    intro k p present
    obtain ⟨q, old, done, -⟩ := begin_cases present
    rw [← done]
    exact order.done old
  case settled =>
    intro k p present within
    obtain ⟨q, old, -, cancelled, -, state, -⟩ := begin_cases present
    rw [← cancelled, ← state (by omega)]
    exact order.settled old within
  case unsettled =>
    intro k p present behind
    obtain ⟨q, old, -, -, -, state, running⟩ := begin_cases present
    by_cases here : k = d + 1
    · exact .inr ⟨running here, here⟩
    · rw [← state here]
      exact order.unsettled old behind
  case cancelled =>
    intro k p present behind
    obtain ⟨q, old, -, cancelled, -⟩ := begin_cases present
    rw [← cancelled, length]
    exact order.cancelled old behind
  case unwaited =>
    intro k p present
    obtain ⟨q, old, -, -, waiters, -⟩ := begin_cases present
    rw [← waiters, length]
    exact order.unwaited old

/-- The task in hand may mark its pass as running. -/
theorem Ranks.begin (ranks : s.Ranks d (some t)) : (s.begin (d + 1)).Ranks d (some t) := by
  have length := s.length_passes_begin (d + 1)
  refine { ranks.toPassOrder.begin with
    waited := ?waited
    idle := ?idle
    quiet := ranks.quiet
    stages := ?stages
    queued := ranks.queued
    held := by rw [length]; exact ranks.held
    front := by rw [length]; exact ranks.front
    sole := ranks.sole }
  case waited =>
    intro k p present behind
    obtain ⟨q, old, -, -, waiters, -⟩ := begin_cases present
    rw [← waiters, length]
    exact ranks.waited old behind
  case idle =>
    intro u k given wake p there free present
    obtain ⟨q, old, -, -, -, state, -⟩ := begin_cases present
    have behind := ranks.waiting_behind there free
    rw [← state (by omega)]
    exact ranks.idle there free old
  case stages =>
    intro u stage present free
    refine (ranks.stages present free).mono rfl (by omega) ?_
    intro j p behind old waited
    rw [Session.begin, pass?_modifyPass s (d + 1) (by simp), old]
    split
    · exact ⟨_, rfl, waited⟩
    · exact ⟨p, rfl, waited⟩

theorem Ranks.stage?_suspend (ranks : s.Ranks d (some t)) (e : Evaluation ι) (count u : Nat) :
    (s.suspend t (d + 1) e count).stage? u =
      if u = t then some (.running (d + 1) e count) else s.stage? u := by
  obtain ⟨-, present, -⟩ := ranks.held rfl
  obtain ⟨task, there⟩ : ∃ task, s.task? t = some task := ⟨_, List.getElem?_eq_getElem present⟩
  rw [suspend, stage?_push, stage?_modifyTask]
  split
  · rename_i here
    rw [here, there]
    rfl
  · rfl

/-- The task in hand may go back into the queue in the middle of its pass. -/
theorem Ranks.suspend (ranks : s.Ranks d (some t)) (e : Evaluation ι) (count : Nat) :
    (s.suspend t (d + 1) e count).Ranks d none := by
  obtain ⟨inside, present, unqueued⟩ := ranks.held rfl
  have stage := ranks.stage?_suspend e count
  have dues : ∀ u, (s.suspend t (d + 1) e count).dues u = s.dues u + if u = t then 1 else 0 := by
    intro u
    rw [Session.suspend, dues_push, dues_modifyTask, count_resume]
  have fronting : ∀ {u}, (s.suspend t (d + 1) e count).Fronting none u → s.Fronting (some t) u := by
    rintro u (⟨⟨⟩⟩ | ⟨at_, found, fronts⟩)
    rw [stage] at found
    split at found
    · rename_i here
      exact .inl (by rw [here])
    · exact .inr ⟨at_, found, fronts⟩
  refine { ranks.toPassOrder.congr rfl with
    waited := ?waited
    idle := ?idle
    quiet := ?quiet
    stages := ?stages
    queued := ?queued
    held := fun held => by cases held
    front := fun _ => ⟨t, .inr ⟨.running (d + 1) e count, by rw [stage, if_pos rfl], trivial⟩⟩
    sole := fun one two => ranks.sole (fronting one) (fronting two) }
  case waited =>
    intro k p found behind before
    obtain ⟨u, given, waited, asleep, free⟩ := ranks.waited found behind before
    refine ⟨u, given, waited, ?_, by simp⟩
    rw [stage, if_neg fun here => free (by rw [here]), asleep]
  case idle =>
    intro u k given wake p there _ present
    rw [stage] at there
    split at there
    · cases there
    · rename_i other
      exact ranks.idle there (fun held => other (Option.some.inj held).symm) present
  case quiet =>
    intro u task found
    rw [Session.suspend, task?_push] at found
    exact of_task?_modifyTask found ranks.quiet fun _ calm => calm
  case stages =>
    intro u at_ found _
    rw [stage] at found
    split at found
    · rename_i here
      cases found
      rw [here]
      exact ⟨by rw [dues, if_pos rfl, unqueued], rfl, inside⟩
    · rename_i other
      refine (ranks.stages found fun held => other (Option.some.inj held).symm).mono ?_
        (Nat.le_refl _) fun j p _ old waited => ⟨p, old, waited⟩
      rw [dues, if_neg other, Nat.add_zero]
  case queued =>
    intro u outside
    have outside : s.tasks.length ≤ u := by
      simpa [Session.suspend, push, modifyTask] using outside
    rw [dues, ranks.queued u outside, if_neg (by omega)]

end Preservation

section Settling

/-- A pass that is done, with the tasks it woke gone. -/
def closed (state : PassState) (p : Pass) : Pass := { p with state, done := true, waiters := [] }

theorem modifyPass_modifyPass (s : Session ι) (k : Nat) {f : Pass → Pass} (g : Pass → Pass)
    (keeps : ∀ p, (f p).id = p.id) :
    (s.modifyPass k f).modifyPass k g = s.modifyPass k (g ∘ f) := by
  simp only [modifyPass, List.map_map]
  congr 2
  funext p
  simp only [Function.comp_apply]
  by_cases here : p.id = k <;> simp [here, keeps]

/-- What ending the first pass in line does: the task in hand ends, and the next in line wakes. -/
theorem Ranks.settle_cases (ranks : s.Ranks d (some t)) (state : PassState)
    (outcome : TaskOutcome) :
    ∃ task, s.task? t = some task ∧
      (d + 1 = s.passes.length ∧
          s.settle t (d + 1) state outcome =
            ((s.modifyPass (d + 1) (closed state)).modifyTask t
              fun task => { task with stage := .ended outcome, observers := [] }).push
              task.observers ∨
        ∃ w given, d + 1 < s.passes.length ∧ w ≠ t ∧
          s.stage? w = some (.waiting (d + 2) given .asleep) ∧
          s.settle t (d + 1) state outcome =
            ((((s.modifyPass (d + 1) (closed state)).modifyTask w
              fun task => { task with stage := .waiting (d + 2) given .ready }).push
              [.resume w]).modifyTask t
              fun task => { task with stage := .ended outcome, observers := [] }).push
              task.observers) := by
  obtain ⟨inside, present, _⟩ := ranks.held rfl
  obtain ⟨task, there⟩ : ∃ task, s.task? t = some task := ⟨_, List.getElem?_eq_getElem present⟩
  obtain ⟨p, first⟩ := (ranks.numbered.exists_iff (d + 1)).mpr ⟨by omega, by omega⟩
  have marked : (s.modifyPass (d + 1) fun p => { p with state }).pass? (d + 1) =
      some { p with state } := by
    rw [pass?_modifyPass _ _ (by simp), if_pos rfl, first, Option.map_some]
  have closes : (s.modifyPass (d + 1) fun p => { p with state }).modifyPass (d + 1)
      (fun p => { p with done := true, waiters := [] }) = s.modifyPass (d + 1) (closed state) :=
    modifyPass_modifyPass s (d + 1) _ (by simp)
  refine ⟨task, there, ?_⟩
  by_cases last : d + 1 = s.passes.length
  · have unwaited := ranks.unwaited first (.inr last)
    refine .inl ⟨last, ?_⟩
    rw [settle, acknowledge, marked]
    simp only [unwaited, List.foldl_nil, closes]
    exact endTask_eq (s := s.modifyPass (d + 1) (closed state)) there outcome
  · obtain ⟨w, given, waited, asleep, free⟩ := ranks.waited first (by omega) (by omega)
    have different : w ≠ t := fun same => free (by rw [same])
    refine .inr ⟨w, given, by omega, different, asleep, ?_⟩
    have woken : (s.modifyPass (d + 1) (closed state)).wakeWaiter w =
        ((s.modifyPass (d + 1) (closed state)).modifyTask w
          fun task => { task with stage := .waiting (d + 2) given .ready }).push [.resume w] := by
      rw [wakeWaiter, stage?_modifyPass, asleep]
    rw [settle, acknowledge, marked]
    simp only [waited, List.foldl_cons, List.foldl_nil, closes, woken]
    refine endTask_eq ?_ outcome
    rw [task?_push, task?_modifyTask, if_neg (Ne.symm different), task?_modifyPass, there]

theorem count_observers {task : Task ι} (calm : Quiet task) (u : Nat) :
    task.observers.count (.resume u) = 0 :=
  List.count_eq_zero_of_not_mem (calm.2 u)

/-- The next in line is the one task that sleeps behind the first pass. -/
theorem Ranks.next_unique {w u : Nat} {given given' : Option Json} (ranks : s.Ranks d (some t))
    (asleep : s.stage? w = some (.waiting (d + 2) given .asleep)) (awake : w ≠ t)
    (asleep' : s.stage? u = some (.waiting (d + 2) given' .asleep)) (awake' : u ≠ t) : u = w := by
  obtain ⟨-, j, p, named, -, found, waited⟩ :=
    ranks.stages asleep fun held => awake (Option.some.inj held).symm
  obtain ⟨-, j', p', named', -, found', waited'⟩ :=
    ranks.stages asleep' fun held => awake' (Option.some.inj held).symm
  obtain rfl : j = j' := by omega
  rw [found] at found'
  cases found'
  rw [waited] at waited'
  exact (List.cons.inj waited').1.symm

/-- What ending the first pass in line does to another task: it wakes the next in line. -/
theorem Ranks.settle_other (ranks : s.Ranks d (some t)) (state : PassState) (outcome : TaskOutcome)
    {u : Nat} (other : u ≠ t) :
    (∃ given, s.stage? u = some (.waiting (d + 2) given .asleep) ∧
        (s.settle t (d + 1) state outcome).stage? u = some (.waiting (d + 2) given .ready) ∧
        (s.settle t (d + 1) state outcome).dues u = s.dues u + 1) ∨
      (∀ given, s.stage? u ≠ some (.waiting (d + 2) given .asleep)) ∧
        (s.settle t (d + 1) state outcome).stage? u = s.stage? u ∧
        (s.settle t (d + 1) state outcome).dues u = s.dues u := by
  obtain ⟨task, there, ⟨last, same⟩ | ⟨w, given, before, different, asleep, same⟩⟩ :=
    ranks.settle_cases state outcome
  · refine .inr ⟨?_, ?_, ?_⟩
    · intro given asleep
      obtain ⟨-, j, p, named, behind, found, waited⟩ :=
        ranks.stages asleep fun held => other (Option.some.inj held).symm
      rw [ranks.unwaited found (.inr (by omega))] at waited
      cases waited
    · rw [same, stage?_push, stage?_modifyTask, if_neg other, stage?_modifyPass]
    · rw [same, dues_push, count_observers (ranks.quiet there), dues_modifyTask, dues_modifyPass,
        Nat.add_zero]
  · by_cases here : u = w
    · subst here
      obtain ⟨task', there', _⟩ := stage?_eq_some.mp asleep
      refine .inl ⟨given, asleep, ?_, ?_⟩
      · rw [same, stage?_push, stage?_modifyTask, if_neg other, stage?_push, stage?_modifyTask,
          if_pos rfl, task?_modifyPass, there']
        rfl
      · rw [same, dues_push, count_observers (ranks.quiet there), dues_modifyTask, dues_push,
          count_resume, if_pos rfl, dues_modifyTask, dues_modifyPass]
    · refine .inr ⟨?_, ?_, ?_⟩
      · exact fun given' asleep' => here (ranks.next_unique asleep different asleep' other)
      · rw [same, stage?_push, stage?_modifyTask, if_neg other, stage?_push, stage?_modifyTask,
          if_neg here, stage?_modifyPass]
      · rw [same, dues_push, count_observers (ranks.quiet there), dues_modifyTask, dues_push,
          count_resume, if_neg here, dues_modifyTask, dues_modifyPass, Nat.add_zero]

theorem Ranks.settle_mine (ranks : s.Ranks d (some t)) (state : PassState) (outcome : TaskOutcome) :
    (s.settle t (d + 1) state outcome).stage? t = some (.ended outcome) ∧
      (s.settle t (d + 1) state outcome).dues t = 0 := by
  obtain ⟨-, -, unqueued⟩ := ranks.held rfl
  obtain ⟨task, there, ⟨-, same⟩ | ⟨w, given, -, different, -, same⟩⟩ :=
    ranks.settle_cases state outcome
  · constructor
    · rw [same, stage?_push, stage?_modifyTask, if_pos rfl, task?_modifyPass, there]
      rfl
    · rw [same, dues_push, count_observers (ranks.quiet there), dues_modifyTask, dues_modifyPass,
        unqueued]
  · constructor
    · rw [same, stage?_push, stage?_modifyTask, if_pos rfl, task?_push, task?_modifyTask,
        if_neg (Ne.symm different), task?_modifyPass, there]
      rfl
    · rw [same, dues_push, count_observers (ranks.quiet there), dues_modifyTask, dues_push,
        count_resume, if_neg (Ne.symm different), dues_modifyTask, dues_modifyPass, unqueued]

theorem Ranks.settle_passes (ranks : s.Ranks d (some t)) (state : PassState)
    (outcome : TaskOutcome) :
    (s.settle t (d + 1) state outcome).passes = (s.modifyPass (d + 1) (closed state)).passes := by
  obtain ⟨task, there, ⟨-, same⟩ | ⟨w, given, -, -, -, same⟩⟩ := ranks.settle_cases state outcome
  · rw [same]
    rfl
  · rw [same]
    rfl

theorem Ranks.pass?_settle (ranks : s.Ranks d (some t)) (state : PassState) (outcome : TaskOutcome)
    (k : Nat) :
    (s.settle t (d + 1) state outcome).pass? k =
      if k = d + 1 then (s.pass? k).map (closed state) else s.pass? k := by
  rw [← pass?_modifyPass s (d + 1) (by simp [closed]), pass?, ranks.settle_passes, pass?]

theorem Ranks.settle_quiet (ranks : s.Ranks d (some t)) (state : PassState) (outcome : TaskOutcome)
    {u : Nat} {task : Task ι} (found : (s.settle t (d + 1) state outcome).task? u = some task) :
    Quiet task := by
  have ends : ∀ task : Task ι, Quiet task →
      Quiet ({ task with stage := .ended outcome, observers := [] } : Task ι) :=
    fun _ calm => ⟨calm.1, by simp⟩
  obtain ⟨mine, there, ⟨-, same⟩ | ⟨w, given, -, -, -, same⟩⟩ := ranks.settle_cases state outcome
  · rw [same, task?_push] at found
    exact of_task?_modifyTask found ranks.quiet ends
  · rw [same, task?_push] at found
    refine of_task?_modifyTask found ?_ ends
    intro u task found
    rw [task?_push] at found
    exact of_task?_modifyTask found ranks.quiet fun _ calm => calm

theorem Ranks.settle_tasks (ranks : s.Ranks d (some t)) (state : PassState)
    (outcome : TaskOutcome) :
    (s.settle t (d + 1) state outcome).tasks.length = s.tasks.length := by
  obtain ⟨task, there, ⟨-, same⟩ | ⟨w, given, -, -, -, same⟩⟩ := ranks.settle_cases state outcome
  · rw [same]
    simp [push, modifyTask, modifyPass]
  · rw [same]
    simp [push, modifyTask, modifyPass]

/-- Closing the first pass in line leaves the line without it. -/
theorem PassOrder.close {state : PassState} (order : s.PassOrder d) (inside : d < s.passes.length)
    (ended : state = .committed ∨ state = .aborted)
    (live : state = .committed → ∀ p, s.pass? (d + 1) = some p → p.cancelled = false) :
    (s.modifyPass (d + 1) (closed state)).PassOrder (d + 1) := by
  have length : (s.modifyPass (d + 1) (closed state)).passes.length = s.passes.length :=
    List.length_map ..
  have found := pass?_modifyPass s (d + 1) (f := closed state) (by simp [closed])
  refine ⟨order.numbered.modifyPass _ (by simp [closed]), by rw [length]; exact inside, ?done,
    ?settled, ?unsettled, ?cancelled, ?unwaited⟩
  case done =>
    intro k p there
    rw [found] at there
    split at there
    · rename_i here
      obtain ⟨q, -, rfl⟩ := Option.map_eq_some_iff.mp there
      simp [closed, here]
    · rw [order.done there]
      simp only [decide_eq_decide]
      omega
  case settled =>
    intro k p there within
    rw [found] at there
    split at there
    · rename_i here
      obtain ⟨q, old, rfl⟩ := Option.map_eq_some_iff.mp there
      rw [here] at old
      exact ended.imp_left fun committed => ⟨committed, live committed q old⟩
    · exact order.settled there (by omega)
  case unsettled =>
    intro k p there behind
    rw [found, if_neg (by omega)] at there
    rcases order.unsettled there (by omega) with idle | ⟨-, here⟩
    · exact .inl idle
    · omega
  case cancelled =>
    intro k p there behind
    rw [found, if_neg (by omega)] at there
    rw [length]
    exact order.cancelled there (by omega)
  case unwaited =>
    intro k p there within
    rw [found] at there
    rw [length] at within
    split at there
    · obtain ⟨q, -, rfl⟩ := Option.map_eq_some_iff.mp there
      rfl
    · exact order.unwaited there (by omega)

section Settled

variable {state : PassState} {outcome : TaskOutcome} {u : Nat}

theorem Ranks.length_passes_settle (ranks : s.Ranks d (some t)) (state : PassState)
    (outcome : TaskOutcome) :
    (s.settle t (d + 1) state outcome).passes.length = s.passes.length := by
  rw [ranks.settle_passes]
  exact List.length_map ..

/-- After the first pass the task that waited for it fronts the line. -/
theorem Ranks.fronting_settle (ranks : s.Ranks d (some t))
    (first : (s.settle t (d + 1) state outcome).Fronting none u) :
    u ≠ t ∧ ∃ given, s.stage? u = some (.waiting (d + 2) given .asleep) := by
  obtain ⟨⟨⟩⟩ | ⟨stage, there, fronts⟩ := first
  by_cases mine : u = t
  · rw [mine, (ranks.settle_mine state outcome).1] at there
    cases there
    exact fronts.elim
  · rcases ranks.settle_other state outcome mine with ⟨given, asleep, -⟩ | ⟨-, same, -⟩
    · exact ⟨mine, given, asleep⟩
    · rw [same] at there
      exact absurd (ranks.sole (.inr ⟨stage, there, fronts⟩) (.inl rfl)) mine

theorem Ranks.waited_settle (ranks : s.Ranks d (some t)) {k : Nat} {p : Pass}
    (there : (s.settle t (d + 1) state outcome).pass? k = some p) (behind : d + 1 < k)
    (before : k < s.passes.length) :
    ∃ u given, p.waiters = [u] ∧
      (s.settle t (d + 1) state outcome).stage? u = some (.waiting (k + 1) given .asleep) ∧
      none ≠ some u := by
  rw [ranks.pass?_settle, if_neg (by omega)] at there
  obtain ⟨u, given, waited, asleep, free⟩ := ranks.waited there (by omega) before
  have other : u ≠ t := fun same => free (by rw [same])
  refine ⟨u, given, waited, ?_, by simp⟩
  rcases ranks.settle_other state outcome other with ⟨given', asleep', -⟩ | ⟨-, same, -⟩
  · rw [asleep'] at asleep
    have : d + 2 = k + 1 := (Stage.waiting.inj (Option.some.inj asleep)).1
    omega
  · rw [same, asleep]

theorem Ranks.idle_settle (ranks : s.Ranks d (some t)) {k : Nat} {given : Option Json} {wake : Wake}
    {p : Pass}
    (there : (s.settle t (d + 1) state outcome).stage? u = some (.waiting k given wake))
    (present : (s.settle t (d + 1) state outcome).pass? k = some p) : p.state = .idle := by
  rw [ranks.pass?_settle] at present
  by_cases mine : u = t
  · rw [mine, (ranks.settle_mine state outcome).1] at there
    cases there
  · have free : some t ≠ some u := fun held => mine (Option.some.inj held).symm
    rcases ranks.settle_other state outcome mine with ⟨given', asleep, ready, -⟩ | ⟨-, same, -⟩
    · rw [ready] at there
      cases there
      rw [if_neg (by omega)] at present
      exact ranks.idle asleep free present
    · rw [same] at there
      have behind := ranks.waiting_behind there free
      rw [if_neg (by omega)] at present
      exact ranks.idle there free present

/-- The task that is woken has the first pass in line now. -/
theorem Ranks.woken_settle (ranks : s.Ranks d (some t)) (other : u ≠ t) {given : Option Json}
    (asleep : s.stage? u = some (.waiting (d + 2) given .asleep)) :
    s.dues u = 0 ∧ d + 1 < s.passes.length := by
  have free : some t ≠ some u := fun held => other (Option.some.inj held).symm
  obtain ⟨none, j, p, named, -, first, waited⟩ := ranks.stages asleep free
  have before : j ≠ s.passes.length := by
    intro last
    rw [ranks.unwaited first (.inr last)] at waited
    cases waited
  have within := (ranks.numbered.exists_iff j).mp ⟨p, first⟩
  exact ⟨none, by omega⟩

/-- A task that is not woken is where it was, one place further up in line. -/
theorem Ranks.stageFits_settle (ranks : s.Ranks d (some t)) (other : u ≠ t) {stage : Stage ι}
    (there : s.stage? u = some stage)
    (awake : ∀ given, s.stage? u ≠ some (.waiting (d + 2) given .asleep))
    (queued : (s.settle t (d + 1) state outcome).dues u = s.dues u) :
    (s.settle t (d + 1) state outcome).StageFits (d + 1) u stage := by
  have fits := ranks.stages there fun held => other (Option.some.inj held).symm
  have behind : ¬ stage.Fronts := fun fronts =>
    other (ranks.sole (.inr ⟨stage, there, fronts⟩) (.inl rfl))
  cases stage with
  | fresh given => exact queued.trans fits
  | ended result => exact queued.trans fits
  | running k e count => exact absurd trivial behind
  | waiting k given wake =>
    cases wake with
    | ready => exact absurd trivial behind
    | cancelled => exact fits
    | asleep =>
      obtain ⟨none, j, p, named, after, first, waited⟩ := fits
      have later : j ≠ d + 1 := by
        rintro rfl
        rw [named] at there
        exact awake given there
      exact ⟨queued.trans none, j, p, named, by omega,
        by rw [ranks.pass?_settle, if_neg later, first], waited⟩

theorem Ranks.stages_settle (ranks : s.Ranks d (some t)) {stage : Stage ι}
    (there : (s.settle t (d + 1) state outcome).stage? u = some stage) :
    (s.settle t (d + 1) state outcome).StageFits (d + 1) u stage := by
  by_cases mine : u = t
  · rw [mine, (ranks.settle_mine state outcome).1] at there
    cases there
    rw [mine]
    exact (ranks.settle_mine state outcome).2
  · rcases ranks.settle_other state outcome mine with
      ⟨given, asleep, ready, queued⟩ | ⟨awake, same, queued⟩
    · rw [ready] at there
      cases there
      obtain ⟨none, before⟩ := ranks.woken_settle mine asleep
      exact ⟨by omega, rfl, by rw [ranks.length_passes_settle]; exact before⟩
    · rw [same] at there
      exact ranks.stageFits_settle mine there awake queued

theorem Ranks.queued_settle (ranks : s.Ranks d (some t)) (outside : s.tasks.length ≤ u) :
    (s.settle t (d + 1) state outcome).dues u = 0 := by
  obtain ⟨-, present, -⟩ := ranks.held rfl
  rcases ranks.settle_other state outcome (u := u) (by omega) with
    ⟨given, asleep, -⟩ | ⟨-, -, queued⟩
  · have := lt_of_stage? asleep
    omega
  · rw [queued, ranks.queued u outside]

theorem Ranks.front_settle (ranks : s.Ranks d (some t)) (behind : d + 1 < s.passes.length) :
    ∃ u, (s.settle t (d + 1) state outcome).Fronting none u := by
  obtain ⟨p, first⟩ := (ranks.numbered.exists_iff (d + 1)).mpr ⟨by omega, by omega⟩
  obtain ⟨u, given, -, asleep, free⟩ := ranks.waited first (by omega) behind
  have other : u ≠ t := fun same => free (by rw [same])
  rcases ranks.settle_other state outcome other with ⟨given', -, ready, -⟩ | ⟨awake, -⟩
  · exact ⟨u, .inr ⟨_, ready, trivial⟩⟩
  · exact absurd asleep (awake given)

end Settled

/-- Ending the first pass in line leaves the line without it. -/
theorem Ranks.settle {state : PassState} (ranks : s.Ranks d (some t)) (outcome : TaskOutcome)
    (ended : state = .committed ∨ state = .aborted)
    (live : state = .committed → ∀ p, s.pass? (d + 1) = some p → p.cancelled = false) :
    (s.settle t (d + 1) state outcome).Ranks (d + 1) none := by
  have length := ranks.length_passes_settle state outcome
  have order := (ranks.toPassOrder.close (ranks.held rfl).1 ended live).congr
    (ranks.settle_passes state outcome)
  refine { order with
    waited := by rw [length]; exact ranks.waited_settle
    idle := fun there _ present => ranks.idle_settle there present
    quiet := ranks.settle_quiet state outcome
    stages := fun there _ => ranks.stages_settle there
    queued := by rw [ranks.settle_tasks]; exact fun u outside => ranks.queued_settle outside
    held := fun held => by cases held
    front := by rw [length]; exact ranks.front_settle
    sole := ?sole }
  intro u v one two
  obtain ⟨mine, given, asleep⟩ := ranks.fronting_settle one
  obtain ⟨mine', given', asleep'⟩ := ranks.fronting_settle two
  exact ranks.next_unique asleep' mine' asleep mine

end Settling

end Session

end ShaderFlow
