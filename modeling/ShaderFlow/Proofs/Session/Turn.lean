import ShaderFlow.Proofs.Session.Order

set_option autoImplicit false

namespace ShaderFlow

variable {ι : Type} [BEq ι] [NodeId ι]

/-- What can happen to a session next. -/
inductive Turn (ι : Type) where
  /-- A pass is asked for. -/
  | process (selector : Option Json)
  | trigger
  | request (r : Request ι)
  /-- The graph changes behind the session's back. -/
  | amend (graph : Graph ι)
  | select (selector : Option Json)
  /-- A job of the queue runs. -/
  | job (i : Nat)

/-- The selector that a turn gives to the pass it starts. -/
def Turn.given : Turn ι → Option Json
  | .process selector => selector
  | _ => none

namespace Job

/-- The task that a job continues. -/
def task? : Job → Option Nat
  | .resume t => some t
  | _ => none

/-- Whether a job may be followed by a signal. -/
def signals : Job → Bool
  | .gathered .. => true
  | _ => false

end Job

namespace Session

def take (s : Session ι) : Turn ι → Session ι
  | .process selector => (s.process selector).1
  | .trigger => s.trigger.1
  | .request r => (s.request r).1
  | .amend graph => { s with graph }
  | .select selector => { s with selector }
  | .job i =>
    match s.queue[i]? with
    | some job => (s.taken i).runJob job
    | none => s

/-- The tasks in the queue. -/
def due (s : Session ι) : List Nat := s.queue.filterMap Job.task?

/-- How many jobs are left, signals to come included. -/
def backlog (s : Session ι) : Nat := s.queue.length + s.queue.countP Job.signals

/-- The session after some turns. -/
def play (s : Session ι) (turns : List (Turn ι)) : Session ι := turns.foldl take s

section Inversion

/-- Two sessions that agree in all that passes are made of. -/
structure Aside (s s' : Session ι) : Prop where
  passes : s'.passes = s.passes
  tasks : s'.tasks = s.tasks
  due : s'.due = s.due
  target : s'.target = s.target
  lastSource : s'.lastSource = s.lastSource
  lastResult : s'.lastResult = s.lastResult
  delivered : s'.delivered = s.delivered

/-- Where the pass of a task comes from that has its turn, what the pass comes to, and how many
nodes it has yet to run at most. -/
inductive Source (s s' : Session ι) (d t : Nat) : Except Error String → Nat → Prop
  | opened {given : Option Json} {size : Nat} (stage : s.stage? t = some (.fresh given))
      (settled : d = s.passes.length) (count : s'.passes.length = s.passes.length + 1)
      (begun : ∃ p, s'.pass? (d + 1) = some p ∧ p.state ≠ .idle) :
      Source s s' d t (s.graph.evaluate s.target (given <|> s.selector) false).outcome size
  | started {given : Option Json} {size : Nat}
      (stage : s.stage? t = some (.waiting (d + 1) given .ready))
      (count : s'.passes.length = s.passes.length)
      (begun : ∃ p, s'.pass? (d + 1) = some p ∧ p.state ≠ .idle) :
      Source s s' d t (s.graph.evaluate s.target (given <|> s.selector) false).outcome size
  | continued {e : Evaluation ι} {nodes : Nat}
      (stage : s.stage? t = some (.running (d + 1) e nodes))
      (count : s'.passes.length = s.passes.length)
      (begun : (∀ p, s.pass? (d + 1) = some p → p.state = .running) →
        ∃ p, s'.pass? (d + 1) = some p ∧ p.state ≠ .idle) :
      Source s s' d t (e.rest s.target) e.pending.length

/-- Two sessions that agree in all that their owner sets. -/
structure Steady (s s' : Session ι) : Prop where
  graph : s'.graph = s.graph
  target : s'.target = s.target
  selector : s'.selector = s.selector
  hasLoop : s'.hasLoop = s.hasLoop

/-- What a task with the first pass in line leaves as it is. -/
structure Frame (s : Session ι) (i d : Nat) (s' : Session ι) : Prop where
  passes : ∀ k, k ≠ d + 1 → s'.pass? k = s.pass? k
  tasks : s'.tasks.length = s.tasks.length
  steady : Steady s s'
  due : ∃ more, s'.due = (s.taken i).due ++ more ∧
    ∀ u ∈ more, ∃ stage, s'.stage? u = some stage ∧ stage.Fronts

/-- What a task does with the first pass in line, which comes to `result` if it is not cancelled. -/
inductive Effect (s s' : Session ι) (d t : Nat) (cancelled : Bool) (result : Except Error String)
    (size : Nat) : Prop
  | suspended {e : Evaluation ι} {nodes : Nat} (ranks : s'.Ranks d none)
      (same : e.rest s.target = result) (fewer : e.pending.length < size)
      (stages : ∀ u, s'.stage? u = if u = t then some (.running (d + 1) e nodes) else s.stage? u)
      (results : s'.lastResult = s.lastResult ∧ s'.lastSource = s.lastSource ∧
        s'.delivered = s.delivered)
  | ended {state : PassState} {outcome : TaskOutcome} (ranks : s'.Ranks (d + 1) none)
      (settles : Settles (d + 1) cancelled result state outcome)
      (mine : s'.stage? t = some (.ended outcome))
      (others : ∀ u, u ≠ t → s'.stage? u = s.stage? u ∨ ∃ given,
        s.stage? u = some (.waiting (d + 2) given .asleep) ∧
          s'.stage? u = some (.waiting (d + 2) given .ready))
      (results : s'.lastResult = (outcome.result? <|> s.lastResult) ∧
        s'.lastSource = (outcome.delivery? <|> s.lastSource) ∧
        s'.delivered = s.delivered ++ outcome.delivery?.toList)
      (first : ∃ p, s'.pass? (d + 1) = some p ∧ p.state = state ∧ p.cancelled = cancelled)

/-- What a turn can do while the first `d` passes are done. -/
inductive Takes (s : Session ι) (d : Nat) : Turn ι → Session ι → Prop
  | aside {turn : Turn ι} {s' : Session ι} (same : Aside s s')
      (chore : ∀ i, turn = .job i → Steady s s' ∧ (s.queue[i]? = none ∨ s'.backlog < s.backlog)) :
      Takes s d turn s'
  | spawned {turn : Turn ι} {s' : Session ι} (observers : Nat → List Job)
      (calm : ∀ t u, .resume u ∉ observers t) (same : Aside (s.spawn turn.given observers).1 s')
      (asked : ∀ i, turn ≠ .job i) : Takes s d turn s'
  | queued {i t : Nat} {given : Option Json} {previous : Pass} {s' : Session ι}
      (queued : s.queue[i]? = some (.resume t)) (fresh : s.stage? t = some (.fresh given))
      (undone : d < s.passes.length) (last : s.pass? s.passes.length = some previous)
      (same : ∃ log, s' = { (s.taken i).queueUp t previous given with log }) : Takes s d (.job i) s'
  | ran {i t size : Nat} {cancelled : Bool} {result : Except Error String} {s' : Session ι}
      (queued : s.queue[i]? = some (.resume t)) (source : Source s s' d t result size)
      (line : cancelled = decide (d + 1 < s'.passes.length)) (frame : Frame s i d s')
      (effect : Effect s s' d t cancelled result size) : Takes s d (.job i) s'

variable {s : Session ι} {d : Nat}

omit [BEq ι] [NodeId ι] in
theorem due_push (s : Session ι) {jobs : List Job} (calm : ∀ u, .resume u ∉ jobs) :
    (s.push jobs).due = s.due := by
  have none : jobs.filterMap Job.task? = [] := by
    refine List.filterMap_eq_nil_iff.mpr fun job member => ?_
    cases job with
    | resume u => exact absurd member (calm u)
    | _ => rfl
  rw [due, push, List.filterMap_append, none, List.append_nil, due]

omit [BEq ι] [NodeId ι] in
theorem due_taken {i : Nat} {job : Job} (queued : s.queue[i]? = some job)
    (idle : job.task? = none) :
    (s.taken i).due = s.due := by
  obtain ⟨inside, there⟩ := List.getElem?_eq_some_iff.mp queued
  have split : s.queue = s.queue.take i ++ job :: s.queue.drop (i + 1) := by
    rw [← there, List.getElem_cons_drop, List.take_append_drop]
  have rest : (s.taken i).queue = s.queue.take i ++ s.queue.drop (i + 1) :=
    List.eraseIdx_eq_take_drop_succ ..
  have same : s.due = (s.queue.take i ++ s.queue.drop (i + 1)).filterMap Job.task? := by
    conv_lhs => rw [due, split]
    rw [List.filterMap_append, List.filterMap_cons, idle, List.filterMap_append]
  rw [same, due, rest]

omit [BEq ι] [NodeId ι] in
theorem Aside.stage?_eq {s s' : Session ι} (same : Aside s s') : s'.stage? = s.stage? := by
  funext u
  rw [stage?, task?, same.tasks, stage?, task?]

omit [BEq ι] [NodeId ι] in
theorem Aside.pass?_eq {s s' : Session ι} (same : Aside s s') : s'.pass? = s.pass? := by
  funext k
  rw [pass?, same.passes, pass?]

omit [BEq ι] [NodeId ι] in
theorem Aside.refl (s : Session ι) : Aside s s := ⟨rfl, rfl, rfl, rfl, rfl, rfl, rfl⟩

omit [BEq ι] [NodeId ι] in
/-- A trigger starts a task, if jobs can be queued at all. -/
theorem trigger_takes {s s' : Session ι} (turn : Turn ι) (same : Aside s s')
    (plain : turn.given = none) :
    Aside s s'.trigger.1 ∨ ∃ observers : Nat → List Job, (∀ t u, .resume u ∉ observers t) ∧
      Aside (s.spawn turn.given observers).1 s'.trigger.1 := by
  unfold trigger
  split
  · refine .inr ⟨fun t => [.discard t], by simp, ?_⟩
    rw [plain]
    obtain ⟨passes, tasks, due, target, lastSource, lastResult, delivered⟩ := same
    refine ⟨passes, ?_, ?_, target, lastSource, lastResult, delivered⟩
    · simp [spawn, push, tasks]
    · simp only [Session.due, spawn, push, tasks, List.filterMap_append] at due ⊢
      rw [due]
  · exact .inl ⟨same.passes, same.tasks, same.due, same.target, same.lastSource, same.lastResult,
      same.delivered⟩

theorem edit_takes {α : Type} (s : Session ι) (edited : Graph ι × Logged α) (regenerate : Bool)
    {turn : Turn ι} (plain : turn.given = none) (asked : ∀ i, turn ≠ .job i) :
    Takes s d turn (s.edit edited regenerate).1 := by
  have aside : ∀ {s'}, Aside s s' → Takes s d turn s' := fun same =>
    .aside same fun i job => absurd job (asked i)
  rcases s.edit_cases edited regenerate with ⟨e, -, same⟩ | ⟨a, changes, -, same⟩
  · rw [same]
    exact aside ⟨rfl, rfl, rfl, rfl, rfl, rfl, rfl⟩
  · rw [same]
    have changed : Aside s { s with graph := edited.1, log := s.log ++ edited.2.events, changes } :=
      ⟨rfl, rfl, rfl, rfl, rfl, rfl, rfl⟩
    cases regenerate with
    | false => exact aside changed
    | true =>
      rcases trigger_takes turn changed plain with calm | ⟨observers, calm, spawned⟩
      · exact aside calm
      · exact .spawned observers calm spawned asked

omit [BEq ι] [NodeId ι] in
theorem backlog_taken {i : Nat} {job : Job} (queued : s.queue[i]? = some job) :
    s.backlog = (s.taken i).backlog + 1 + if job.signals then 1 else 0 := by
  obtain ⟨inside, there⟩ := List.getElem?_eq_some_iff.mp queued
  have same := List.getElem_cons_eraseIdx_perm inside
  rw [there] at same
  have length := same.length_eq
  have count := same.countP_eq Job.signals
  rw [List.length_cons] at length
  rw [List.countP_cons] at count
  simp only [backlog, taken]
  omega

omit [BEq ι] [NodeId ι] in
/-- Counting a task for a gathering signals at most. -/
theorem gatherOne_aside (s : Session ι) (gathering t : Nat) :
    Aside s (s.gatherOne gathering t) ∧ Steady s (s.gatherOne gathering t) ∧
      (s.gatherOne gathering t).backlog ≤ s.backlog + 1 := by
  have stays : ∀ gatherings, Aside s { s with gatherings } ∧ Steady s { s with gatherings } ∧
      { s with gatherings }.backlog ≤ s.backlog + 1 := fun _ =>
    ⟨⟨rfl, rfl, rfl, rfl, rfl, rfl, rfl⟩, ⟨rfl, rfl, rfl, rfl⟩, Nat.le_succ _⟩
  unfold gatherOne
  split
  · split
    · exact stays s.gatherings
    · dsimp only
      split
      all_goals
        split
        · refine ⟨⟨rfl, rfl, due_push _ (by simp), rfl, rfl, rfl, rfl⟩, ⟨rfl, rfl, rfl, rfl⟩, ?_⟩
          simp [backlog, push, Job.signals, Nat.add_right_comm]
        · exact stays _
  · exact stays s.gatherings

omit [BEq ι] [NodeId ι] in
theorem pass?_addPass_new (numbered : s.Numbered) (i : Nat) :
    (s.taken i).addPass.pass? (s.passes.length + 1) = some { id := s.passes.length + 1 } :=
  (Numbered.pass?_addPass (s := s.taken i) numbered _).trans (if_pos rfl)

omit [BEq ι] [NodeId ι] in
theorem pass?_begin (s : Session ι) (k j : Nat) :
    (s.begin k).pass? j =
      if j = k then (s.pass? j).map fun p => { p with state := .running } else s.pass? j :=
  pass?_modifyPass s k (by simp) j

omit [BEq ι] [NodeId ι] in
/-- Marking a pass makes it run, and changes nothing else of it. -/
theorem begin_marked {k : Nat} {q : Pass} (first : s.pass? k = some q) :
    ∀ p, (s.begin k).pass? k = some p → p.state = .running ∧ p.cancelled = q.cancelled := by
  intro p found
  rw [pass?_begin, if_pos rfl, first, Option.map_some] at found
  cases found
  exact ⟨rfl, rfl⟩

/-- A job of the queue puts a task in hand. -/
structure Handed (s : Session ι) (i d t : Nat) (cancelled : Bool) (s₁ : Session ι) : Prop where
  ranks : s₁.Ranks d (some t)
  marked : ∀ p, s₁.pass? (d + 1) = some p → p.cancelled = cancelled
  passes : ∀ k, k ≠ d + 1 → s₁.pass? k = s.pass? k
  rest : ∃ passes, s₁ = { s.taken i with passes }

omit [BEq ι] [NodeId ι] in
/-- Ending the first pass in line puts at most the next task into the queue. -/
theorem Ranks.due_settle {t : Nat} (ranks : s.Ranks d (some t)) (state : PassState)
    (outcome : TaskOutcome) :
    ∃ more, (s.settle t (d + 1) state outcome).due = s.due ++ more ∧
      ∀ u ∈ more, ∃ stage, (s.settle t (d + 1) state outcome).stage? u = some stage ∧
        stage.Fronts := by
  obtain ⟨task, there, ⟨-, same⟩ | ⟨w, given, -, different, asleep, same⟩⟩ :=
    ranks.settle_cases state outcome
  · refine ⟨[], ?_, by simp⟩
    rw [same, due_push _ (ranks.quiet there).2, List.append_nil]
    rfl
  · refine ⟨[w], ?_, ?_⟩
    · rw [same, due_push _ (ranks.quiet there).2]
      exact List.filterMap_append
    · intro u member
      rw [List.mem_singleton.mp member]
      rcases ranks.settle_other state outcome different with ⟨given', -, ready, -⟩ | ⟨awake, -⟩
      · exact ⟨_, ready, trivial⟩
      · exact absurd asleep (awake given)

/-- A turn of the task in hand suspends its pass or ends it. -/
theorem Handed.effect {i t size : Nat} {cancelled : Bool} {result : Except Error String}
    {s₁ s' : Session ι} (handed : Handed s i d t cancelled s₁)
    (advances : Advances s₁ t (d + 1) cancelled result size s') :
    s'.passes.length = s₁.passes.length ∧ Frame s i d s' ∧
      Effect s s' d t cancelled result size ∧
      ((∀ p, s₁.pass? (d + 1) = some p → p.state = .running) →
        ∃ p, s'.pass? (d + 1) = some p ∧ p.state ≠ .idle) := by
  obtain ⟨ranks, marked, passes, passes₁, rfl⟩ := handed
  obtain ⟨inside, -, -⟩ := ranks.held rfl
  obtain ⟨p, first⟩ := (ranks.numbered.exists_iff (d + 1)).mpr ⟨by omega, by omega⟩
  have framed : ∀ log, { s.taken i with passes := passes₁, log }.Ranks d (some t) := fun log =>
    ranks.congr rfl rfl fun _ => rfl
  cases advances with
  | @suspended e nodes log live same fewer =>
    have stages := (framed log).stage?_suspend e nodes
    refine ⟨rfl,
      ⟨passes, List.length_modify .., ⟨rfl, rfl, rfl, rfl⟩, [t], List.filterMap_append, ?_⟩,
      .suspended ((framed log).suspend e nodes) same fewer stages ⟨rfl, rfl, rfl⟩, ?_⟩
    · intro u member
      rw [List.mem_singleton.mp member]
      exact ⟨_, (stages t).trans (if_pos rfl), trivial⟩
    · intro runs
      exact ⟨p, first, by rw [runs p first]; decide⟩
  | ended ends =>
    obtain ⟨log, settles⟩ := ends
    rename_i state outcome
    have ranks := framed log
    obtain ⟨passes', tasks', queue', kept⟩ :=
      { s.taken i with passes := passes₁, log }.settle_frame t (d + 1) state outcome
    have found := ranks.pass?_settle state outcome
    have finished : state = .committed ∨ state = .aborted := by
      cases settles with
      | committed => exact .inl rfl
      | dropped | aborted | broken => exact .inr rfl
    have closes : ({ s.taken i with passes := passes₁, log }.close t (d + 1) state outcome).pass?
        (d + 1) = some (closed state p) :=
      (found (d + 1)).trans (by rw [if_pos rfl]; exact congrArg (Option.map _) first)
    refine ⟨?_, ⟨?_, ranks.settle_tasks state outcome, ?_, ranks.due_settle state outcome⟩,
      .ended ?_ settles (ranks.settle_mine state outcome).1 ?_ ⟨rfl, rfl, rfl⟩
        ⟨_, closes, rfl, marked p first⟩, fun _ => ⟨_, closes, ?_⟩⟩
    · exact (congrArg List.length (ranks.settle_passes state outcome)).trans (List.length_map ..)
    · intro k other
      rw [← passes k other]
      exact (found k).trans (if_neg other)
    · rw [close, kept]
      exact ⟨rfl, rfl, rfl, rfl⟩
    · refine (ranks.settle _ finished ?_).congr rfl rfl fun _ => rfl
      intro committed q there
      cases settles with
      | committed live => exact (marked q there).trans live
      | dropped | aborted | broken => cases committed
    · intro u other
      rcases ranks.settle_other state outcome other with ⟨given, asleep, ready, -⟩ | ⟨-, same, -⟩
      · exact .inr ⟨given, asleep, ready⟩
      · exact .inl same
    · rcases finished with rfl | rfl <;> simp [closed]

/-- A turn of the task in hand is what a job does. -/
theorem Handed.takes {i t size : Nat} {cancelled : Bool} {result : Except Error String}
    {s₁ s' : Session ι} (handed : Handed s i d t cancelled s₁)
    (queued : s.queue[i]? = some (.resume t))
    (advances : Advances s₁ t (d + 1) cancelled result size s')
    (source : s'.passes.length = s₁.passes.length →
      ((∀ p, s₁.pass? (d + 1) = some p → p.state = .running) →
        ∃ p, s'.pass? (d + 1) = some p ∧ p.state ≠ .idle) → Source s s' d t result size) :
    Takes s d (.job i) s' := by
  obtain ⟨count, frame, effect, begun⟩ := handed.effect advances
  refine .ran queued (source count begun) ?_ frame effect
  obtain ⟨inside, -, -⟩ := handed.ranks.held rfl
  obtain ⟨p, first⟩ := (handed.ranks.numbered.exists_iff (d + 1)).mpr ⟨by omega, by omega⟩
  rw [← handed.marked p first, handed.ranks.cancelled first (Nat.lt_succ_self d), count]

/-- A new task opens a pass when all passes are done. -/
theorem open_takes {i t : Nat} {given : Option Json} (ranks : s.Ranks s.passes.length none)
    (queued : s.queue[i]? = some (.resume t)) (fresh : s.stage? t = some (.fresh given)) :
    Takes s s.passes.length (.job i)
      ((s.taken i).addPass.startRun t (s.passes.length + 1) given) := by
  have new := pass?_addPass_new ranks.numbered i
  have marked := begin_marked new
  have handed : Handed s i s.passes.length t false
      ((s.taken i).addPass.begin (s.passes.length + 1)) := by
    refine ⟨(ranks.enter queued fresh).begin, fun p found => (marked p found).2, ?_, _, rfl⟩
    intro k other
    rw [pass?_begin, if_neg other, Numbered.pass?_addPass (s := s.taken i) ranks.numbered]
    exact if_neg other
  obtain ⟨size, advances⟩ := startRun_advances t new given
  refine handed.takes queued advances fun count begun => .opened fresh rfl ?_ ?_
  · rw [count]
    simp [Session.begin, modifyPass, addPass, taken]
  · exact begun fun p found => (marked p found).1

/-- A task whose turn has come starts its pass. -/
theorem start_takes {i t : Nat} {given : Option Json} {p : Pass} (ranks : s.Ranks d none)
    (queued : s.queue[i]? = some (.resume t))
    (ready : s.stage? t = some (.waiting (d + 1) given .ready)) (first : s.pass? (d + 1) = some p) :
    Takes s d (.job i) ((s.taken i).startRun t (d + 1) given) := by
  have marked := begin_marked (s := s.taken i) first
  have handed : Handed s i d t p.cancelled ((s.taken i).begin (d + 1)) := by
    refine ⟨(ranks.pick queued ready trivial).begin, fun p found => (marked p found).2, ?_, _, rfl⟩
    intro k other
    rw [pass?_begin, if_neg other, pass?_taken]
  obtain ⟨size, advances⟩ := startRun_advances (s := s.taken i) t first given
  refine handed.takes queued advances fun count begun => .started ready ?_ ?_
  · rw [count]
    simp [Session.begin, modifyPass, taken]
  · exact begun fun p found => (marked p found).1

/-- A task goes on with its pass. -/
theorem continue_takes {i t nodes : Nat} {e : Evaluation ι} {p : Pass} (ranks : s.Ranks d none)
    (queued : s.queue[i]? = some (.resume t))
    (running : s.stage? t = some (.running (d + 1) e nodes)) (first : s.pass? (d + 1) = some p) :
    Takes s d (.job i) ((s.taken i).advance t p e nodes) := by
  have named : p.id = d + 1 := by simpa using List.find?_some first
  have handed : Handed s i d t p.cancelled (s.taken i) := by
    refine ⟨ranks.pick queued running trivial, ?_, fun _ _ => rfl, _, rfl⟩
    intro q found
    rw [pass?_taken, first] at found
    cases found
    rfl
  have advances := (s.taken i).advance_advances t p e nodes
  rw [named] at advances
  exact handed.takes queued advances fun count begun => .continued running count begun

/-- Continuing a task of the queue opens, starts or continues a pass. -/
theorem resume_takes {i t : Nat} (ranks : s.Ranks d none)
    (queued : s.queue[i]? = some (.resume t)) :
    Takes s d (.job i) ((s.taken i).resumeTask t) := by
  have due : s.dues t ≠ 0 := by
    have := dues_taken queued t
    rw [if_pos rfl] at this
    omega
  have inside : t < s.tasks.length := by
    by_contra outside
    exact due (ranks.queued t (by omega))
  obtain ⟨task, there⟩ : ∃ task, s.task? t = some task := ⟨_, List.getElem?_eq_getElem inside⟩
  have present : s.stage? t = some task.stage := stage?_eq_some.mpr ⟨task, there, rfl⟩
  have fits := ranks.stages present (by simp)
  have calm := (ranks.quiet there).1
  rw [resumeTask, task?_taken, there]
  simp only [calm, Bool.false_eq_true, if_false, Bool.false_or]
  cases stage : task.stage with
  | ended outcome =>
    rw [stage] at fits
    exact absurd fits due
  | fresh given =>
    rw [stage] at present
    dsimp only
    by_cases undone : d < s.passes.length
    · obtain ⟨previous, last⟩ :=
        (ranks.numbered.exists_iff s.passes.length).mpr ⟨by omega, by omega⟩
      have current : (s.taken i).current? = some previous := by
        rw [← last]
        exact ranks.numbered.current?_eq
      have pending : previous.done = false := by
        rw [ranks.done last]
        simpa using undone
      obtain ⟨log, same⟩ := openPass_of_open current pending t given
      rw [same]
      exact .queued queued present undone last ⟨log, rfl⟩
    · obtain rfl : d = s.passes.length := by
        have := ranks.le
        omega
      have all : ∀ previous, (s.taken i).current? = some previous → previous.done = true := by
        intro previous last
        rw [show (s.taken i).current? = s.current? from rfl, ranks.numbered.current?_eq] at last
        rw [ranks.done last]
        simp
      rw [openPass_of_done all]
      exact open_takes ranks queued present
  | waiting k given wake =>
    rw [stage] at present fits
    cases wake with
    | cancelled => exact fits.elim
    | asleep => exact absurd fits.1 due
    | ready =>
      obtain ⟨-, rfl, within⟩ := fits
      obtain ⟨p, first⟩ := (ranks.numbered.exists_iff (d + 1)).mpr ⟨by omega, by omega⟩
      exact start_takes ranks queued present first
  | running k e count =>
    rw [stage] at present fits
    obtain ⟨-, rfl, within⟩ := fits
    obtain ⟨p, first⟩ := (ranks.numbered.exists_iff (d + 1)).mpr ⟨by omega, by omega⟩
    simp only [pass?_taken, first]
    exact continue_takes ranks queued present first

/-- A job that continues no task leaves the passes alone and makes the queue lighter. -/
theorem runJob_aside {i : Nat} {job : Job} (queued : s.queue[i]? = some job)
    (idle : job.task? = none) :
    Aside s ((s.taken i).runJob job) ∧ Steady s ((s.taken i).runJob job) ∧
      ((s.taken i).runJob job).backlog < s.backlog := by
  have due := due_taken queued idle
  have backlog := backlog_taken queued
  cases job with
  | resume t => cases idle
  | discard t =>
    have lighter : (s.taken i).backlog < s.backlog := by simp [backlog, Job.signals]
    exact ⟨⟨rfl, rfl, due, rfl, rfl, rfl, rfl⟩, ⟨rfl, rfl, rfl, rfl⟩, lighter⟩
  | signal g =>
    have lighter : (s.taken i).backlog < s.backlog := by simp [backlog, Job.signals]
    exact ⟨⟨rfl, rfl, due, rfl, rfl, rfl, rfl⟩, ⟨rfl, rfl, rfl, rfl⟩, lighter⟩
  | gathered gathering t =>
    obtain ⟨aside, steady, lighter⟩ := (s.taken i).gatherOne_aside gathering t
    refine ⟨⟨aside.passes, aside.tasks, aside.due.trans due, aside.target, aside.lastSource,
      aside.lastResult, aside.delivered⟩, ⟨steady.graph, steady.target, steady.selector,
      steady.hasLoop⟩, ?_⟩
    rw [backlog]
    exact Nat.lt_succ_of_le lighter

/-- Every turn does one of these. -/
theorem take_takes (ranks : s.Ranks d none) (turn : Turn ι) : Takes s d turn (s.take turn) := by
  cases turn with
  | process selector => exact .spawned (fun _ => []) (by simp) (.refl _) nofun
  | trigger =>
    rcases trigger_takes (.trigger : Turn ι) (.refl s) rfl with
      aside | ⟨observers, calm, spawned⟩
    · exact .aside aside nofun
    · exact .spawned observers calm spawned nofun
  | request r =>
    obtain ⟨α, edited, regenerate, same⟩ := s.request_eq_edit r
    rw [take, same]
    exact edit_takes s edited regenerate rfl nofun
  | amend graph => exact .aside ⟨rfl, rfl, rfl, rfl, rfl, rfl, rfl⟩ nofun
  | select selector => exact .aside ⟨rfl, rfl, rfl, rfl, rfl, rfl, rfl⟩ nofun
  | job i =>
    cases queued : s.queue[i]? with
    | none =>
      simp only [take, queued]
      refine .aside (.refl s) fun j same => ⟨⟨rfl, rfl, rfl, rfl⟩, .inl ?_⟩
      cases same
      exact queued
    | some job =>
      simp only [take, queued]
      cases continues : job.task? with
      | none =>
        obtain ⟨aside, steady, lighter⟩ := runJob_aside queued continues
        refine .aside aside fun j same => ⟨steady, .inr lighter⟩
      | some t =>
        cases job with
        | resume u => exact resume_takes ranks queued
        | _ => cases continues

end Inversion

section Line

variable {s s' : Session ι} {d t : Nat}

omit [BEq ι] [NodeId ι] in
theorem dues_eq_count (s : Session ι) (t : Nat) : s.dues t = s.due.count t := by
  unfold dues due
  induction s.queue with
  | nil => rfl
  | cons job queue ih =>
    rw [List.count_cons, ih, List.filterMap_cons]
    cases job with
    | resume u => by_cases same : u = t <;> simp [Job.task?, same]
    | _ => simp [Job.task?]

omit [BEq ι] [NodeId ι] in
theorem Ranks.aside {hand : Option Nat} (ranks : s.Ranks d hand) (same : Aside s s') :
    s'.Ranks d hand :=
  ranks.congr same.passes same.tasks fun t => by
    rw [dues_eq_count, dues_eq_count, same.due]

omit [BEq ι] [NodeId ι] in
theorem task?_spawn (s : Session ι) (given : Option Json) (observers : Nat → List Job) (u : Nat) :
    (s.spawn given observers).1.task? u =
      if u = s.tasks.length then
        some { stage := .fresh given, observers := observers s.tasks.length }
      else s.task? u := by
  simp only [task?, spawn, push, List.getElem?_append]
  by_cases inside : u < s.tasks.length
  · rw [if_pos inside, if_neg (by omega)]
  · rw [if_neg inside]
    by_cases here : u = s.tasks.length
    · simp [here]
    · rw [if_neg here, List.getElem?_eq_none (by simp; omega), List.getElem?_eq_none (by omega)]

omit [BEq ι] [NodeId ι] in
theorem stage?_spawn (s : Session ι) (given : Option Json) (observers : Nat → List Job) (u : Nat) :
    (s.spawn given observers).1.stage? u =
      if u = s.tasks.length then some (.fresh given) else s.stage? u := by
  rw [stage?, task?_spawn]
  split <;> rfl

omit [BEq ι] [NodeId ι] in
/-- A new task stands in the queue and holds no pass yet. -/
theorem Ranks.spawn {observers : Nat → List Job} (ranks : s.Ranks d none) (given : Option Json)
    (calm : ∀ t u, .resume u ∉ observers t) : (s.spawn given observers).1.Ranks d none := by
  have dues : ∀ u, (s.spawn given observers).1.dues u =
      s.dues u + if u = s.tasks.length then 1 else 0 := by
    intro u
    rw [Session.spawn, dues_push, count_resume]
    rfl
  have stage := s.stage?_spawn given observers
  have fronting : ∀ {u}, (s.spawn given observers).1.Fronting none u → s.Fronting none u := by
    rintro u (⟨⟨⟩⟩ | ⟨at_, present, fronts⟩)
    rw [stage] at present
    split at present
    · cases present
      exact fronts.elim
    · exact .inr ⟨at_, present, fronts⟩
  have keeps {u at_} (present : s.stage? u = some at_) :
      (s.spawn given observers).1.stage? u = some at_ := by
    rw [stage, if_neg (Nat.ne_of_lt (lt_of_stage? present)), present]
  refine { ranks.toPassOrder.congr rfl with
    waited := ?waited
    idle := ?idle
    quiet := ?quiet
    stages := ?stages
    queued := ?queued
    held := fun held => by cases held
    front := ?front
    sole := fun one two => ranks.sole (fronting one) (fronting two) }
  case waited =>
    intro k p found behind before
    obtain ⟨u, given', waited, asleep, free⟩ := ranks.waited found behind before
    exact ⟨u, given', waited, keeps asleep, free⟩
  case idle =>
    intro u k given' wake p there free found
    rw [stage] at there
    split at there
    · cases there
    · exact ranks.idle there free found
  case quiet =>
    intro u task found
    rw [task?_spawn] at found
    split at found
    · cases found
      exact ⟨rfl, calm _⟩
    · exact ranks.quiet found
  case stages =>
    intro u at_ present _
    rw [stage] at present
    split at present
    · rename_i here
      cases present
      rw [StageFits, dues, here, if_pos rfl, ranks.queued _ (Nat.le_refl _)]
    · rename_i other
      refine (ranks.stages present (by simp)).mono ?_ (Nat.le_refl _)
        fun j p _ found waited => ⟨p, found, waited⟩
      rw [dues, if_neg other, Nat.add_zero]
  case queued =>
    intro u outside
    have outside : s.tasks.length + 1 ≤ u := by simpa [Session.spawn, push] using outside
    rw [dues, ranks.queued u (by omega), if_neg (by omega)]
  case front =>
    intro undone
    obtain ⟨u, ⟨⟨⟩⟩ | ⟨at_, present, fronts⟩⟩ := ranks.front undone
    exact ⟨u, .inr ⟨at_, keeps present, fronts⟩⟩

/-- Every turn keeps the passes in line. -/
theorem Ranks.takes {turn : Turn ι} (ranks : s.Ranks d none) (takes : Takes s d turn s') :
    ∃ d', d ≤ d' ∧ s'.Ranks d' none := by
  cases takes with
  | aside same => exact ⟨d, Nat.le_refl d, ranks.aside same⟩
  | spawned observers calm same => exact ⟨d, Nat.le_refl d, (ranks.spawn _ calm).aside same⟩
  | queued queued fresh undone last same =>
    obtain ⟨log, rfl⟩ := same
    exact ⟨d, Nat.le_refl d, (ranks.queueUp queued fresh undone last).congr rfl rfl fun _ => rfl⟩
  | ran queued source line frame effect =>
    cases effect with
    | suspended ranks => exact ⟨d, Nat.le_refl d, ranks⟩
    | ended ranks => exact ⟨d + 1, Nat.le_succ d, ranks⟩

theorem exists_ranks_play (ranks : s.Ranks d none) (turns : List (Turn ι)) :
    ∃ d', d ≤ d' ∧ (s.play turns).Ranks d' none := by
  induction turns generalizing s d with
  | nil => exact ⟨d, Nat.le_refl d, ranks⟩
  | cons turn turns ih =>
    obtain ⟨d', more, next⟩ := ranks.takes (take_takes ranks turn)
    obtain ⟨d'', most, last⟩ := ih next
    exact ⟨d'', by omega, last⟩

/-- A job changes nothing that the owner of a session sets, and starts no task. -/
theorem take_job_steady (ranks : s.Ranks d none) (i : Nat) :
    Steady s (s.take (.job i)) ∧ (s.take (.job i)).tasks.length = s.tasks.length := by
  have takes := take_takes ranks (.job i)
  generalize s.take (.job i) = s' at takes
  cases takes with
  | aside same chore => exact ⟨(chore i rfl).1, congrArg List.length same.tasks⟩
  | spawned observers calm same asked => exact absurd rfl (asked i)
  | queued queued fresh undone last same =>
    obtain ⟨log, rfl⟩ := same
    exact ⟨⟨rfl, rfl, rfl, rfl⟩, List.length_modify ..⟩
  | ran queued source line frame effect => exact ⟨frame.steady, frame.tasks⟩

theorem play_jobs_steady (ranks : s.Ranks d none) (jobs : Nat) :
    Steady s (s.play (List.replicate jobs (.job 0))) ∧
      (s.play (List.replicate jobs (.job 0))).tasks.length = s.tasks.length := by
  induction jobs generalizing s d with
  | zero => exact ⟨⟨rfl, rfl, rfl, rfl⟩, rfl⟩
  | succ jobs ih =>
    obtain ⟨here, tasks⟩ := take_job_steady ranks 0
    obtain ⟨d', -, ranks'⟩ := ranks.takes (take_takes ranks (.job 0))
    obtain ⟨rest, tasks'⟩ := ih ranks'
    exact ⟨⟨rest.graph.trans here.graph, rest.target.trans here.target,
      rest.selector.trans here.selector, rest.hasLoop.trans here.hasLoop⟩, tasks'.trans tasks⟩

end Line

end Session

end ShaderFlow
