import ShaderFlow.Proofs.Evaluation.Totality
import ShaderFlow.Proofs.Session.History

set_option autoImplicit false

/-
Every edit starts a pass, and a pass takes its snapshot when it begins. So when all passes are over,
the last one saw the graph as it is now, and its result is what the graph evaluates to. Only an edit
that is refused though it was made starts no pass, which happens when an id cannot be written down.
-/

namespace ShaderFlow

variable {ι : Type} [BEq ι] [NodeId ι]

namespace Session

/-- What the graph of a session evaluates to now. -/
def evaluated (s : Session ι) : Except Error String :=
  (s.graph.evaluate s.target s.selector false).outcome

/-- The pass of the last task is going to see the graph as it is now, or saw it like that, and if it
is over the session keeps its result. -/
def Current (s : Session ι) (d t : Nat) : Prop :=
  (∃ wake, s.stage? t = some (.waiting (t + 1) none wake)) ∨
    (∃ e nodes, s.stage? t = some (.running (t + 1) e nodes) ∧ e.rest s.target = s.evaluated) ∨
    d = t + 1 ∧ ∃ state outcome, s.stage? t = some (.ended outcome) ∧
      Settles (t + 1) false s.evaluated state outcome ∧
      (∀ r, outcome.result? = some r → s.lastResult = some r) ∧
      ∀ source, outcome.delivery? = some source → s.lastSource = some source

/-- Tasks open their passes in the order they were made, and the last pass is current. -/
structure Lined (s : Session ι) (d : Nat) : Prop where
  le : s.passes.length ≤ s.tasks.length
  opened : ∀ {t given}, s.stage? t = some (.fresh given) → s.passes.length ≤ t
  unopened : ∀ {t stage}, s.stage? t = some stage → s.passes.length ≤ t → stage = .fresh none
  order : s.due.filter (fun t => decide (s.passes.length ≤ t)) =
    List.range' s.passes.length (s.tasks.length - s.passes.length)
  waiting : ∀ {t k given wake}, s.stage? t = some (.waiting k given wake) → k = t + 1 ∧ given = none
  running : ∀ {t k e nodes}, s.stage? t = some (.running k e nodes) → k = t + 1
  current : ∀ t, s.passes.length = t + 1 → s.tasks.length = t + 1 → s.Current d t

variable {s s' : Session ι} {d t : Nat}

theorem IsNew.lined (new : s.IsNew) : s.Lined 0 := by
  have stage := new.stage?
  have passes : s.passes.length = 0 := by rw [new.passes, List.length_nil]
  have tasks : s.tasks.length = 0 := by rw [new.tasks, List.length_nil]
  have due : s.due = [] := by rw [Session.due, new.queue, List.filterMap_nil]
  constructor
  · omega
  · simp [stage]
  · simp [stage]
  · rw [due, passes, tasks]
    rfl
  · simp [stage]
  · simp [stage]
  · omega

/-- A turn that leaves the passes alone and the graph as good as it was. -/
theorem Lined.aside (lined : s.Lined d) (same : Aside s s')
    (evaluates : s'.evaluated = s.evaluated) :
    s'.Lined d := by
  have stage := same.stage?_eq
  obtain ⟨passes, tasks, due, target, lastSource, lastResult, -⟩ := same
  constructor
  · rw [passes, tasks]
    exact lined.le
  · rw [stage, passes]
    exact lined.opened
  · rw [stage, passes]
    exact lined.unopened
  · rw [due, passes, tasks]
    exact lined.order
  · rw [stage]
    exact lined.waiting
  · rw [stage]
    exact lined.running
  · rw [passes, tasks]
    intro t counted asked
    unfold Current
    rw [stage, target, evaluates, lastSource, lastResult]
    exact lined.current t counted asked

/-- A new task gets behind the others. -/
theorem Lined.spawned {observers : Nat → List Job} (lined : s.Lined d)
    (same : Aside (s.spawn none observers).1 s') : s'.Lined d := by
  have le := lined.le
  have stage : ∀ u, s'.stage? u =
      if u = s.tasks.length then some (.fresh none) else s.stage? u := by
    rw [same.stage?_eq]
    exact s.stage?_spawn none observers
  have passes : s'.passes = s.passes := same.passes
  have tasks : s'.tasks.length = s.tasks.length + 1 := by
    rw [same.tasks]
    exact List.length_append
  have due : s'.due = s.due ++ [s.tasks.length] := by
    rw [same.due]
    exact List.filterMap_append
  constructor
  · rw [passes, tasks]
    omega
  · intro u given present
    rw [passes]
    rw [stage] at present
    split at present
    · omega
    · exact lined.opened present
  · intro u at_ present behind
    rw [passes] at behind
    rw [stage] at present
    split at present
    · cases present
      rfl
    · exact lined.unopened present behind
  · have last : decide (s.passes.length ≤ s.tasks.length) = true := decide_eq_true le
    have more :
        s.tasks.length + 1 - s.passes.length = s.tasks.length - s.passes.length + 1 := by omega
    rw [due, passes, tasks, List.filter_append, lined.order, more, List.range'_1_concat,
      List.filter_singleton, last, Nat.add_sub_cancel' le]
    rfl
  · intro u k given wake present
    rw [stage] at present
    split at present
    · cases present
    · exact lined.waiting present
  · intro u k e nodes present
    rw [stage] at present
    split at present
    · cases present
    · exact lined.running present
  · rw [passes, tasks]
    omega

omit [BEq ι] [NodeId ι] in
theorem due_eq_cons (queued : s.queue[0]? = some (.resume t)) : s.due = t :: (s.taken 0).due := by
  unfold due taken
  cases queue : s.queue with
  | nil =>
    rw [queue] at queued
    cases queued
  | cons job rest =>
    rw [queue] at queued
    cases queued
    rfl

/-- The first new task in the queue is the one made first. -/
theorem Lined.first (lined : s.Lined d) (queued : s.queue[0]? = some (.resume t))
    (behind : s.passes.length ≤ t) :
    t = s.passes.length ∧ s.passes.length < s.tasks.length ∧
      (s.taken 0).due.filter (fun t => decide (s.passes.length + 1 ≤ t)) =
        List.range' (s.passes.length + 1) (s.tasks.length - (s.passes.length + 1)) := by
  have order := lined.order
  rw [due_eq_cons queued, List.filter_cons, if_pos (decide_eq_true behind)] at order
  obtain ⟨count, more⟩ : ∃ count, s.tasks.length - s.passes.length = count + 1 := by
    cases left : s.tasks.length - s.passes.length with
    | zero =>
      rw [left] at order
      cases order
    | succ count => exact ⟨count, rfl⟩
  rw [more, List.range'_succ] at order
  obtain ⟨rfl, rest⟩ := List.cons.inj order
  refine ⟨rfl, by omega, ?_⟩
  have later : (s.taken 0).due.filter (fun t => decide (s.passes.length + 1 ≤ t)) =
      ((s.taken 0).due.filter fun t => decide (s.passes.length ≤ t)).filter
        fun t => decide (s.passes.length + 1 ≤ t) := by
    rw [List.filter_filter]
    congr 1
    funext u
    by_cases above : s.passes.length + 1 ≤ u
    · simp [above, show s.passes.length ≤ u by omega]
    · simp [above]
  rw [later, rest, show s.tasks.length - (s.passes.length + 1) = count by omega]
  refine List.filter_eq_self.mpr fun u member => ?_
  exact decide_eq_true (List.mem_range'_1.mp member).1

/-- A task that gets in line is the first one that has no pass yet. -/
theorem Lined.queued {given : Option Json} {previous : Pass} (lined : s.Lined d)
    (queued : s.queue[0]? = some (.resume t)) (fresh : s.stage? t = some (.fresh given))
    (log : List Event) : { (s.taken 0).queueUp t previous given with log }.Lined d := by
  obtain ⟨rfl, more, order⟩ := lined.first queued (lined.opened fresh)
  obtain rfl : given = none := by
    cases lined.unopened fresh (Nat.le_refl _)
    rfl
  have stage : ∀ u, { (s.taken 0).queueUp s.passes.length previous none with log }.stage? u = _ :=
    stage?_queueUp fresh 0 previous
  have passes : { (s.taken 0).queueUp s.passes.length previous none with log }.passes.length = _ :=
    s.length_passes_queueUp 0 s.passes.length previous none
  have tasks : { (s.taken 0).queueUp s.passes.length previous none with log }.tasks.length =
    s.tasks.length := List.length_modify ..
  constructor
  · rw [passes, tasks]
    exact more
  · intro u given' present
    rw [passes]
    rw [stage] at present
    split at present
    · cases present
    · have := lined.opened present
      omega
  · intro u at_ present behind
    rw [passes] at behind
    rw [stage, if_neg (by omega)] at present
    exact lined.unopened present (by omega)
  · rw [passes, tasks]
    exact order
  · intro u k given' wake present
    rw [stage] at present
    split at present
    · rename_i here
      cases present
      exact ⟨by rw [here], rfl⟩
    · exact lined.waiting present
  · intro u k e nodes present
    rw [stage] at present
    split at present
    · cases present
    · exact lined.running present
  · rw [passes, tasks]
    intro u counted asked
    obtain rfl : s.passes.length = u := by omega
    exact .inl ⟨.asleep, (stage _).trans (if_pos rfl)⟩

/-- The task with the first pass in line, and what its pass comes to if it is the last one. -/
theorem Lined.of_source {size : Nat} {result : Except Error String} (lined : s.Lined d)
    (queued : s.queue[0]? = some (.resume t)) (source : Source s s' d t result size) :
    t = d ∧ d < s'.passes.length ∧ s'.passes.length ≤ s.tasks.length ∧
      (∀ u, u ≠ t → (s'.passes.length ≤ u ↔ s.passes.length ≤ u)) ∧
      (d + 1 < s'.passes.length → s'.passes.length = s.passes.length) ∧
      ((s.taken 0).due.filter (fun u => decide (s'.passes.length ≤ u)) =
        List.range' s'.passes.length (s.tasks.length - s'.passes.length)) ∧
      (s'.passes.length = d + 1 → s.tasks.length = d + 1 → result = s.evaluated) := by
  have old : ∀ {stage}, s.stage? t = some stage → stage ≠ .fresh none → t < s.passes.length := by
    intro stage present begun
    by_contra behind
    exact begun (lined.unopened present (by omega))
  have rest : t < s.passes.length →
      (s.taken 0).due.filter (fun u => decide (s.passes.length ≤ u)) =
        List.range' s.passes.length (s.tasks.length - s.passes.length) := by
    intro before
    rw [← lined.order, due_eq_cons queued, List.filter_cons, if_neg (by simpa using before)]
  have le := lined.le
  cases source with
  | @opened given _ stage settled count begun =>
    obtain ⟨rfl, more, order⟩ := lined.first queued (lined.opened stage)
    obtain rfl : given = none := by
      cases lined.unopened stage (Nat.le_refl _)
      rfl
    rw [count]
    refine ⟨settled.symm, by omega, more, fun u other => by omega, by omega, order, ?_⟩
    intro _ _
    rfl
  | @started given _ stage count begun =>
    obtain ⟨named, rfl⟩ := lined.waiting stage
    have before := old stage (by simp)
    rw [count]
    refine ⟨by omega, by omega, le, fun u _ => Iff.rfl, fun _ => rfl, rest before, ?_⟩
    intro _ _
    rfl
  | @continued e nodes stage count begun =>
    have named := lined.running stage
    have before := old stage (by simp)
    obtain rfl : t = d := by omega
    rw [count]
    refine ⟨rfl, before, le, fun u _ => Iff.rfl, fun _ => rfl, rest before, ?_⟩
    intro counted asked
    rcases lined.current t counted asked with ⟨wake, waits⟩ | ⟨e', nodes', runs, same⟩ |
      ⟨-, state, outcome, finished, -⟩
    · rw [stage] at waits
      cases waits
    · rw [stage] at runs
      cases runs
      exact same
    · rw [stage] at finished
      cases finished

/-- A task that has its turn keeps the tasks in line, if it leaves its own pass current. -/
theorem Lined.carry {d' size : Nat} {result : Except Error String} {stage : Stage ι}
    (lined : s.Lined d) (ranks : s.Ranks d none) (queued : s.queue[0]? = some (.resume t))
    (source : Source s s' d t result size) (frame : Frame s 0 d s')
    (mine : s'.stage? t = some stage) (begun : stage.selector? = none)
    (numbered : ∀ k e nodes, stage = .running k e nodes → k = t + 1)
    (others : ∀ u, u ≠ t → s'.stage? u = s.stage? u ∨ ∃ given,
      s.stage? u = some (.waiting (d + 2) given .asleep) ∧
        s'.stage? u = some (.waiting (d + 2) given .ready))
    (current : s'.passes.length = t + 1 → s'.tasks.length = t + 1 → s'.Current d' t) :
    s'.Lined d' := by
  obtain ⟨rfl, inside, le, counts, stays, order, -⟩ := lined.of_source queued source
  have tasks := frame.tasks
  have unopened : ∀ {u stage}, s'.stage? u = some stage → s'.passes.length ≤ u →
      stage = .fresh none := by
    intro u stage present behind
    have other : u ≠ t := by omega
    rcases others u other with same | ⟨given, asleep, -⟩
    · rw [same] at present
      exact lined.unopened present ((counts u other).mp behind)
    · cases lined.unopened asleep ((counts u other).mp behind)
  constructor
  · omega
  · intro u given present
    by_cases other : u = t
    · rw [other, mine] at present
      cases present
      cases begun
    · rcases others u other with same | ⟨given, asleep, ready⟩
      · rw [same] at present
        exact (counts u other).mpr (lined.opened present)
      · rw [ready] at present
        cases present
  · exact unopened
  · -- The queue gains only tasks that have a pass.
    obtain ⟨more, same, fronts⟩ := frame.due
    have none : more.filter (fun u => decide (s'.passes.length ≤ u)) = [] := by
      refine List.filter_eq_nil_iff.mpr fun u member behind => ?_
      obtain ⟨stage, present, front⟩ := fronts u member
      cases unopened present (of_decide_eq_true behind)
      exact front
    rw [same, List.filter_append, order, none, List.append_nil, tasks]
  · intro u k given wake present
    by_cases other : u = t
    · rw [other, mine] at present
      cases present
      cases begun
    · rcases others u other with same | ⟨given, asleep, ready⟩
      · rw [same] at present
        exact lined.waiting present
      · rw [ready] at present
        cases present
        exact lined.waiting asleep
  · intro u k e nodes present
    by_cases other : u = t
    · rw [other, mine] at present
      cases present
      rw [numbered k e nodes rfl, other]
    · rcases others u other with same | ⟨given, asleep, ready⟩
      · rw [same] at present
        exact lined.running present
      · rw [ready] at present
        cases present
  · intro u counted asked
    by_cases last : u = t
    · rw [last] at counted asked ⊢
      exact current counted asked
    · -- A pass behind the first one in line still waits.
      have waits : ∃ wake, s.stage? u = some (.waiting (u + 1) none wake) := by
        rcases lined.current u (by omega) (by omega)
          with waits | ⟨e, nodes, runs, -⟩ | ⟨finished, -⟩
        · exact waits
        · obtain ⟨-, first, -⟩ := ranks.stages runs (by simp)
          omega
        · omega
      obtain ⟨wake, waiting⟩ := waits
      rcases others u last with same | ⟨given, asleep, ready⟩
      · exact .inl ⟨wake, by rw [same, waiting]⟩
      · rw [waiting] at asleep
        cases asleep
        exact .inl ⟨_, ready⟩

/-- A task that has its turn leaves the last pass current. -/
theorem Lined.ran {size : Nat} {cancelled : Bool} {result : Except Error String} (lined : s.Lined d)
    (ranks : s.Ranks d none) (queued : s.queue[0]? = some (.resume t))
    (source : Source s s' d t result size)
    (line : cancelled = decide (d + 1 < s'.passes.length)) (frame : Frame s 0 d s')
    (effect : Effect s s' d t cancelled result size) : ∃ d', s'.Ranks d' none ∧ s'.Lined d' := by
  obtain ⟨rfl, -, -, -, -, -, comes⟩ := lined.of_source queued source
  have evaluates : s'.evaluated = s.evaluated := by
    rw [evaluated, frame.steady.graph, frame.steady.target, frame.steady.selector, evaluated]
  cases effect with
  | @suspended e nodes ranks' same fewer stages results =>
    have mine := (stages t).trans (if_pos rfl)
    refine ⟨t, ranks', lined.carry ranks queued source frame mine rfl ?_ ?_ ?_⟩
    · rintro k e nodes ⟨⟩
      rfl
    · exact fun u other => .inl ((stages u).trans (if_neg other))
    · intro counted asked
      refine .inr (.inl ⟨e, nodes, mine, ?_⟩)
      rw [evaluates, ← comes counted (frame.tasks ▸ asked), ← same, frame.steady.target]
  | @ended state outcome ranks' settles mine others results first =>
    refine ⟨t + 1, ranks', lined.carry ranks queued source frame mine rfl nofun others ?_⟩
    intro counted asked
    have live : cancelled = false := by
      rw [line, counted]
      exact decide_eq_false (Nat.lt_irrefl _)
    rw [live, comes counted (frame.tasks ▸ asked), ← evaluates] at settles
    obtain ⟨lastResult, lastSource, -⟩ := results
    refine .inr (.inr ⟨rfl, state, outcome, mine, settles, ?_, ?_⟩)
    · intro r returned
      rw [lastResult, returned]
      rfl
    · intro source delivers
      rw [lastSource, delivers]
      rfl

/-- An edit sets nothing but the graph. -/
theorem edit_settings {α : Type} (s : Session ι) (edited : Graph ι × Logged α) (regenerate : Bool) :
    (s.edit edited regenerate).1.graph = edited.1 ∧
      (s.edit edited regenerate).1.target = s.target ∧
      (s.edit edited regenerate).1.selector = s.selector ∧
      (s.edit edited regenerate).1.hasLoop = s.hasLoop := by
  rcases s.edit_cases edited regenerate with ⟨e, -, same⟩ | ⟨a, changes, -, same⟩
  · rw [same]
    exact ⟨rfl, rfl, rfl, rfl⟩
  · rw [same]
    cases regenerate with
    | false => exact ⟨rfl, rfl, rfl, rfl⟩
    | true =>
      simp only [if_true, trigger]
      split <;> exact ⟨rfl, rfl, rfl, rfl⟩

/-- An accepted edit starts a pass, if it is one that passes can see. -/
theorem edit_accepted {α : Type} {a : α} {edited : Graph ι × Logged α} {regenerate : Bool}
    (accepted : (s.edit edited regenerate).2 = .ok a) (loop : s.hasLoop = true) :
    edited.2.outcome = .ok a ∧
      if regenerate then ∃ observers : Nat → List Job, (∀ t u, .resume u ∉ observers t) ∧
        Aside (s.spawn none observers).1 (s.edit edited regenerate).1
      else Aside s (s.edit edited regenerate).1 := by
  rcases s.edit_cases edited regenerate with ⟨e, -, same⟩ | ⟨a', changes, made, same⟩
  · rw [same] at accepted
    cases accepted
  · rw [same] at accepted ⊢
    cases accepted
    refine ⟨made, ?_⟩
    cases regenerate with
    | false => exact ⟨rfl, rfl, rfl, rfl, rfl, rfl, rfl⟩
    | true =>
      simp only [if_true, trigger, loop]
      exact ⟨fun t => [.discard t], by simp, ⟨rfl, rfl, rfl, rfl, rfl, rfl, rfl⟩⟩

end Session

/-- Edits on a running loop, whose jobs run in the order they were queued. -/
def Turn.Orderly : Turn ι → Prop
  | .request _ | .trigger => True
  | .job i => i = 0
  | _ => False

namespace Session

open ShaderFlow.Graph

variable {s : Session Int} {d : Nat} {r : Request Int}

theorem request_settings (s : Session Int) (r : Request Int) :
    (s.request r).1.graph = (s.graph.perform r.toEdit).1 ∧ (s.request r).1.target = s.target ∧
      (s.request r).1.selector = s.selector ∧ (s.request r).1.hasLoop = s.hasLoop := by
  cases r <;> exact s.edit_settings _ _

/-- Moving a node does not change what the graph evaluates to. -/
theorem evaluated_move (s : Session Int) (id : Int) (position : Json) :
    (s.request (.move id position)).1.evaluated = s.evaluated := by
  obtain ⟨graph, target, selector, -⟩ := s.request_settings (.move id position)
  rw [evaluated, graph, target, selector, evaluated]
  cases success : s.graph.moveNode id position with
  | error e =>
    have same : (s.graph.perform (.move id position)).1 = s.graph := by
      simp only [perform, perform.report, after, success]
      rfl
    rw [Request.toEdit, same]
  | ok g' =>
    obtain ⟨f, moved⟩ := moved_of_moveNode success
    have same : (s.graph.perform (.move id position)).1 = g' := by
      simp only [perform, perform.report, after, success]
      rfl
    rw [Request.toEdit, same]
    exact moved.outcome_evaluate s.target s.selector

/-- When all ids can be written, a request starts a pass or leaves the graph as good as it was. -/
theorem request_spawns (sound : s.graph.Sound) (loop : s.hasLoop = true)
    (before : ∀ id ∈ s.graph.ids, Writable id)
    (after : ∀ id ∈ (s.request r).1.graph.ids, Writable id) :
    (Aside s (s.request r).1 ∧ (s.request r).1.evaluated = s.evaluated) ∨
      ∃ observers : Nat → List Job, (∀ t u, .resume u ∉ observers t) ∧
        Aside (s.spawn none observers).1 (s.request r).1 := by
  cases outcome : (s.request r).2 with
  | error e =>
    obtain ⟨graph, log, same, kept | ⟨-, id, long, within | ⟨within, -⟩⟩⟩ :=
      withholds_of_refused sound outcome
    · rw [same, kept]
      exact .inl ⟨⟨rfl, rfl, rfl, rfl, rfl, rfl, rfl⟩, rfl⟩
    · rw [same] at after
      exact absurd (after id within) long
    · exact absurd (before id within) long
  | ok done =>
    have spawns : ∀ {α : Type} {edited : Graph Int × Logged α},
        (request.report (s.edit edited true)).2 = .ok done →
        ∃ observers : Nat → List Job, (∀ t u, .resume u ∉ observers t) ∧
          Aside (s.spawn none observers).1 (request.report (s.edit edited true)).1 := by
      intro α edited accepted
      obtain ⟨a, made, -⟩ := Outcome.map_eq_ok_iff.mp accepted
      exact (edit_accepted made loop).2
    cases r with
    | move id position =>
      refine .inl ?_
      obtain ⟨a, made, -⟩ := Outcome.map_eq_ok_iff.mp outcome
      exact ⟨(edit_accepted made loop).2, s.evaluated_move id position⟩
    | add | remove | clone | connect | disconnect | load => exact .inr (spawns outcome)

/-- What orderly turns keep of a session: its graph changes by edits alone. -/
structure Kept (s₀ s : Session Int) : Prop where
  hasLoop : s.hasLoop = true
  selector : s.selector = s₀.selector
  graph : ∃ edits, s.graph = s₀.graph.run edits

theorem Kept.steady {s₀ s' : Session Int} (kept : Kept s₀ s) (steady : Steady s s') :
    Kept s₀ s' := by
  obtain ⟨hasLoop, selector, edits, graph⟩ := kept
  exact ⟨steady.hasLoop.trans hasLoop, steady.selector.trans selector, edits,
    steady.graph.trans graph⟩

/-- An orderly turn leaves the last pass current. -/
theorem Lined.takes {s₀ : Session Int} {turn : Turn Int} (lined : s.Lined d)
    (ranks : s.Ranks d none) (kept : Kept s₀ s) (sound : s₀.graph.Sound) (orderly : turn.Orderly)
    (before : ∀ id ∈ s.graph.ids, Writable id)
    (after : ∀ id ∈ (s.take turn).graph.ids, Writable id) :
    (∃ d', (s.take turn).Ranks d' none ∧ (s.take turn).Lined d') ∧ Kept s₀ (s.take turn) := by
  obtain ⟨loop, selector, edits, graph⟩ := kept
  have kept : Kept s₀ s := ⟨loop, selector, edits, graph⟩
  cases turn with
  | process | amend | select => exact orderly.elim
  | trigger =>
    rw [take, trigger, if_pos loop]
    have same : Aside (s.spawn none fun t => [.discard t]).1
        { (s.spawn none fun t => [.discard t]).1 with
          scheduled := (s.spawn none fun t => [.discard t]).1.scheduled ++ [s.tasks.length] } :=
      ⟨rfl, rfl, rfl, rfl, rfl, rfl, rfl⟩
    exact ⟨⟨d, (ranks.spawn none (by simp)).aside same, lined.spawned same⟩,
      loop, selector, edits, graph⟩
  | request r =>
    obtain ⟨changed, -, selector', loop'⟩ := s.request_settings r
    refine ⟨?_, loop'.trans loop, selector'.trans selector, edits ++ [r.toEdit], ?_⟩
    · have sound : s.graph.Sound := graph ▸ sound_run sound edits
      rcases request_spawns sound loop before after with
        ⟨aside, evaluates⟩ | ⟨observers, calm, spawned⟩
      · exact ⟨d, ranks.aside aside, lined.aside aside evaluates⟩
      · exact ⟨d, (ranks.spawn none calm).aside spawned, lined.spawned spawned⟩
    · rw [take, changed, graph, run, run, List.foldl_append]
      rfl
  | job i =>
    obtain rfl : i = 0 := orderly
    refine ⟨?_, kept.steady (take_job_steady ranks 0).1⟩
    have takes := take_takes ranks (.job 0)
    generalize s.take (.job 0) = s' at takes
    cases takes with
    | aside same chore =>
      obtain ⟨steady, -⟩ := chore 0 rfl
      refine ⟨d, ranks.aside same, lined.aside same ?_⟩
      rw [evaluated, steady.graph, steady.target, steady.selector, evaluated]
    | spawned observers calm same asked => exact absurd rfl (asked 0)
    | queued queued fresh undone last same =>
      obtain ⟨log, rfl⟩ := same
      exact ⟨d, (ranks.queueUp queued fresh undone last).congr rfl rfl fun _ => rfl,
        lined.queued queued fresh log⟩
    | ran queued source line frame effect => exact lined.ran ranks queued source line frame effect

theorem IsNew.exists_lined {s₀ : Session Int} (new : s₀.IsNew) (loop : s₀.hasLoop = true)
    (sound : s₀.graph.Sound) (turns : List (Turn Int)) (orderly : ∀ turn ∈ turns, turn.Orderly)
    (short : ∀ before, before <+: turns → ∀ id ∈ (s₀.play before).graph.ids, Writable id) :
    (∃ d, (s₀.play turns).Ranks d none ∧ (s₀.play turns).Lined d) ∧ Kept s₀ (s₀.play turns) := by
  induction turns using List.reverseRecOn with
  | nil => exact ⟨⟨0, new.ranks, new.lined⟩, loop, rfl, [], rfl⟩
  | append_singleton turns turn ih =>
    obtain ⟨⟨d, ranks, lined⟩, kept⟩ := ih (fun turn member => orderly turn (by simp [member]))
      fun before starts => short before (starts.trans (List.prefix_append ..))
    have after := short _ (List.prefix_refl _)
    rw [play_append] at after ⊢
    exact lined.takes ranks kept sound (orderly turn (by simp))
      (short turns (List.prefix_append ..)) after

/-- Jobs bring in no ids. -/
theorem writable_play_jobs {s₀ : Session Int} {turns : List (Turn Int)}
    (ranks : (s₀.play turns).Ranks d none)
    (short : ∀ before, before <+: turns → ∀ id ∈ (s₀.play before).graph.ids, Writable id)
    (jobs : Nat) (before : List (Turn Int))
    (starts : before <+: turns ++ List.replicate jobs (.job 0)) :
    ∀ id ∈ (s₀.play before).graph.ids, Writable id := by
  rcases List.prefix_or_prefix_of_prefix starts (List.prefix_append ..) with within | ⟨rest, rfl⟩
  · exact short before within
  · rw [List.prefix_append_right_inj, List.prefix_replicate_iff] at starts
    rw [starts.2, play_append, (play_jobs_steady ranks _).1.graph]
    exact short turns (List.prefix_refl _)

/-- The last result is that of the task made last. -/
def Reports (s : Session ι) (r : PassResult) : Prop :=
  s.lastResult = some r ∧ s.stage? (s.tasks.length - 1) = some (.ended (.returned r))

/-- When nothing is left to run, the last pass is over and saw the graph as it is now. -/
theorem Lined.settled (lined : s.Lined d) (asked : s.tasks ≠ []) (idle : s.Idle) :
    ∃ state outcome, s.stage? (s.tasks.length - 1) = some (.ended outcome) ∧
      Settles s.tasks.length false s.evaluated state outcome ∧
      (∀ r, outcome.result? = some r → s.lastResult = some r) ∧
      ∀ source, outcome.delivery? = some source → s.lastSource = some source := by
  obtain ⟨t, count⟩ : ∃ t, s.tasks.length = t + 1 :=
    Nat.exists_eq_succ_of_ne_zero fun none => asked (List.length_eq_zero_iff.mp none)
  obtain ⟨task, there⟩ : ∃ task, s.task? t = some task :=
    ⟨_, List.getElem?_eq_getElem (by omega)⟩
  have present : s.stage? t = some task.stage := stage?_eq_some.mpr ⟨task, there, rfl⟩
  obtain ⟨outcome, finished⟩ := idle t _ present
  rw [finished] at present
  -- A task without a pass would still be new.
  have opened : s.passes.length = t + 1 := by
    have le := lined.le
    by_contra fewer
    cases lined.unopened present (by omega)
  rw [count, Nat.add_sub_cancel]
  rcases lined.current t opened count with ⟨wake, waits⟩ | ⟨e, nodes, runs, -⟩ | ⟨-, settled⟩
  · rw [waits] at present
    cases present
  · rw [runs] at present
    cases present
  · exact settled

/-- Over the builtin registry, a graph whose ids can be written gives a source or a failure of
evaluation. -/
theorem evaluated_cases (sound : s.graph.Sound) (registered : s.graph.registry = .builtin)
    (writable : ∀ id ∈ s.graph.ids, Writable id) {selector : Option Int}
    (given : s.selector = selector.map .int) (fits : ∀ id ∈ selector, Writable id) :
    (∃ text, s.evaluated = .ok text) ∨
      ∃ e, s.evaluated = .error e ∧ e.isEvaluation = true ∧ e ≠ .passCancelled := by
  obtain ⟨ids, answer, answers, evaluates⟩ :=
    outcome_evaluate_eq sound registered s.target selector
  have written : writing ids answer = answer := by
    rcases writing_cases ids answer with ⟨-, same⟩ | ⟨⟨id, member, long⟩, -⟩
    · exact same
    · exact absurd ((answers.mem_ids sound id member).elim (writable id) (fits id)) long
  rw [written, ← given] at evaluates
  rw [evaluated, evaluates]
  cases answers with
  | source selects acyclic live text => exact .inl ⟨text, rfl⟩
  | cycle => exact .inr ⟨_, rfl, rfl, nofun⟩
  | refused refuses =>
    refine .inr ⟨_, rfl, ?_⟩
    cases refuses with
    | missing | sinkless | ambiguous => exact ⟨rfl, nofun⟩

/-- Edits that can be reported and the passes they start, in any order: when no pass is scheduled or
under way, which the queue comes to, the last result is that of the pass started last, and it is
what the graph evaluates to now. If that is a source, it is the last source. If it is a failure of
evaluation, the last source is that of the last pass that committed. Over the builtin registry it is
one or the other. -/
theorem last_result_agrees_with_graph {s₀ : Session Int} (new : s₀.IsNew) (loop : s₀.hasLoop = true)
    (registry : Registry) (edits : List Edit) (made : s₀.graph = run { registry } edits)
    (turns : List (Turn Int)) (orderly : ∀ turn ∈ turns, turn.Orderly)
    (short : ∀ before, before <+: turns → ∀ id ∈ (s₀.play before).graph.ids, Writable id)
    (reached : s₀.play turns = s) :
    (∃ jobs, (s.play (List.replicate jobs (.job 0))).Idle) ∧
      (s.tasks ≠ [] → s.Idle →
        (∀ text, s.evaluated = .ok text →
          s.Reports { pass := s.tasks.length, state := .committed, source := some text } ∧
            s.lastSource = some text) ∧
        (∀ e, s.evaluated = .error e → e.isEvaluation = true → e ≠ .passCancelled →
          s.Reports { pass := s.tasks.length, state := .aborted, error := some e }) ∧
        (∃ deliveries : List Delivery, (deliveries.map Delivery.pass).Pairwise (· < ·) ∧
          (∀ k, k ∈ deliveries.map Delivery.pass ↔
            ∃ p, s.pass? k = some p ∧ p.state = .committed) ∧
          (∀ δ ∈ deliveries, s.stage? δ.task = some (.ended (.returned δ.result))) ∧
          s.lastSource = deliveries.getLast?.map Delivery.source) ∧
        (registry = .builtin → ∀ selector : Option Int, s₀.selector = selector.map .int →
          (∀ id ∈ selector, Writable id) → (∃ text, s.evaluated = .ok text) ∨
            ∃ e, s.evaluated = .error e ∧ e.isEvaluation = true ∧ e ≠ .passCancelled)) := by
  have sound : s₀.graph.Sound := made ▸ sound_run (.empty _ _) edits
  obtain ⟨⟨d, ranks, lined⟩, kept⟩ := new.exists_lined loop sound turns orderly short
  obtain ⟨-, deliveries, -, account⟩ := new.exists_account turns
  have writable := short turns (List.prefix_refl _)
  rw [reached] at ranks lined kept account writable
  obtain ⟨-, selects, edits', graph⟩ := kept
  refine ⟨?_, fun asked idle => ⟨?_, ?_, ⟨deliveries, account.ordered, account.committed,
    fun δ member => (account.origin δ member).2, ?_⟩, ?_⟩⟩
  · obtain ⟨jobs, drained⟩ := exists_drained s d ranks
    obtain ⟨d', -, ranks'⟩ := exists_ranks_play ranks (List.replicate jobs (.job 0))
    exact ⟨jobs, ranks'.idle_of_drained drained⟩
  · intro text evaluates
    obtain ⟨state, outcome, finished, settles, last, source⟩ := lined.settled asked idle
    rw [evaluates] at settles
    cases settles with
    | committed live same =>
      cases same
      exact ⟨⟨last _ rfl, finished⟩, source text rfl⟩
    | dropped stopped => simp at stopped
    | aborted same => cases same
    | broken same => cases same
  · intro e evaluates evaluation other
    obtain ⟨state, outcome, finished, settles, last, -⟩ := lined.settled asked idle
    rw [evaluates] at settles
    cases settles with
    | committed live same => cases same
    | dropped stopped =>
      rcases stopped with marked | same
      · cases marked
      · cases same
        exact absurd rfl other
    | aborted same =>
      cases same
      exact ⟨last _ rfl, finished⟩
    | broken same general =>
      cases same
      rw [evaluation] at general
      cases general
  · rw [account.last, account.delivered, List.getLast?_map]
  · intro builtin selector given fits
    have sound' : s.graph.Sound := graph ▸ sound_run sound edits'
    have registered : s.graph.registry = .builtin := by
      rw [graph, registry_run, made, registry_run, builtin]
    exact evaluated_cases sound' registered writable (selects.trans given) fits

/-- A session of an empty graph that nobody listens to. -/
def empty : Session Int := { graph := {}, hasListener := false }

/-- A canvas is added, removed and added again. The pass of the first edit runs and that of the
second one got in line behind it when a color is added and linked to the canvas. Then removing a
node is refused, and one is moved. -/
def sketching : List (Turn Int) :=
  [.request (.add (.str "Canvas") (.arr [.int 0, .int 0]) (.obj [])), .request (.remove 1),
    .request (.add (.str "Canvas") (.arr [.int 0, .int 0]) (.obj [])), .job 0, .job 0,
    .request (.add (.str "Cool Color") (.arr [.int 0, .int 0]) (.obj [])),
    .request (.connect ⟨2, .str "color", 1, .str "color"⟩), .request (.remove 7),
    .request (.move 1 (.arr [.int 5, .int 0]))]

theorem isNew_empty : empty.IsNew := ⟨rfl, rfl, rfl, rfl, rfl, rfl⟩

theorem orderly_sketching : ∀ turn ∈ sketching, turn.Orderly := by
  simp [sketching, Turn.Orderly]

theorem writable_sketching (before : List (Turn Int)) (starts : before <+: sketching) :
    ∀ id ∈ (empty.play before).graph.ids, Writable id := by
  intro id member
  rw [writable_iff]
  have all : ∀ k < 10, ((empty.play (sketching.take k)).graph.ids.all
      fun id => decide (id.natAbs < Json.integerBound)) = true := by decide +kernel
  have within : before.length < 10 := Nat.lt_succ_of_le starts.length_le
  rw [List.prefix_iff_eq_take.mp starts] at member
  exact of_decide_eq_true (List.all_eq_true.mp (all before.length within) id member)

/-- The color on the canvas. -/
def coolSource : String :=
  "\n".intercalate (Target.webgl.preamble ++
    ["", "void main() \x7b", "    gl_FragColor = vec4(0.0, 0.7, 0.7, 1.0);", "\x7d"])

theorem evaluated_sketching : (empty.play sketching).evaluated = .ok coolSource := by
  obtain ⟨-, -, selector, edits, graph⟩ :=
    isNew_empty.exists_lined rfl (.empty _ _) sketching orderly_sketching writable_sketching
  have sound : (empty.play sketching).graph.Sound := graph ▸ sound_run (.empty _ _) edits
  have builtin : (empty.play sketching).graph.registry = .builtin := graph ▸ registry_run {} edits
  have target : (empty.play sketching).target = .webgl := by decide +kernel
  have plain : (empty.play sketching).graph.plainSource? .webgl 1 = some coolSource := by
    decide +kernel
  rw [evaluated, target, selector]
  exact evaluate_of_plainSource? sound builtin (writable_sketching _ (List.prefix_refl _)) plain

/-- The color comes in while the first pass runs and the second one waits. The last of the five
passes commits the source with it. -/
theorem last_result_agrees_with_graph_sketching :
    ((empty.play sketching).passes.map fun p => (p.state, p.cancelled)) =
        [(.running, true), (.idle, false)] ∧
      ∃ jobs s, empty.play (sketching ++ List.replicate jobs (.job 0)) = s ∧ s.Idle ∧
        s.evaluated = .ok coolSource ∧ s.lastSource = some coolSource ∧
        s.Reports { pass := 5, state := .committed, source := some coolSource } := by
  refine ⟨by decide +kernel, ?_⟩
  have count : (empty.play sketching).tasks.length = 5 := by decide +kernel
  obtain ⟨⟨jobs, idle⟩, -⟩ :=
    last_result_agrees_with_graph isNew_empty rfl .builtin [] rfl sketching
    orderly_sketching writable_sketching rfl
  obtain ⟨d, -, ranks⟩ := exists_ranks_play isNew_empty.ranks sketching
  obtain ⟨steady, tasks⟩ := play_jobs_steady ranks jobs
  rw [← play_append] at idle steady tasks
  have orderly : ∀ turn ∈ sketching ++ List.replicate jobs (.job 0), turn.Orderly := by
    intro turn member
    rcases List.mem_append.mp member with member | member
    · exact orderly_sketching turn member
    · rw [List.eq_of_mem_replicate member]
      rfl
  obtain ⟨-, agrees⟩ := last_result_agrees_with_graph isNew_empty rfl .builtin [] rfl
    (sketching ++ List.replicate jobs (.job 0)) orderly
    (writable_play_jobs ranks writable_sketching jobs) rfl
  have evaluates : (empty.play (sketching ++ List.replicate jobs (.job 0))).evaluated =
      .ok coolSource := by
    rw [← evaluated_sketching, evaluated, steady.graph, steady.target, steady.selector, evaluated]
  obtain ⟨commits, -⟩ := agrees (by rw [← List.length_pos_iff, tasks, count]; decide) idle
  obtain ⟨reports, source⟩ := commits _ evaluates
  rw [tasks, count] at reports
  exact ⟨jobs, _, rfl, idle, evaluates, source, reports⟩

end Session

end ShaderFlow
