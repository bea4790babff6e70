import ShaderFlow.Proofs.Evaluation.Rest
import ShaderFlow.Session.Loop

set_option autoImplicit false

namespace ShaderFlow

variable {ι : Type}

/-- The source that a result delivers. -/
def PassResult.delivery? (r : PassResult) : Option String :=
  match r.state, r.source with
  | .committed, some source => some source
  | _, _ => none

namespace TaskOutcome

/-- The result of a task that was neither cancelled nor broken. -/
def result? : TaskOutcome → Option PassResult
  | .returned r => some r
  | _ => none

def delivery? (o : TaskOutcome) : Option String := o.result?.bind PassResult.delivery?

end TaskOutcome

namespace Session

theorem pass?_modifyPass (s : Session ι) (k : Nat) {f : Pass → Pass} (keeps : ∀ p, (f p).id = p.id)
    (id : Nat) :
    (s.modifyPass k f).pass? id = if id = k then (s.pass? id).map f else s.pass? id := by
  have same : ((fun p : Pass => p.id == id) ∘ fun p => if p.id == k then f p else p) =
      fun p => p.id == id := by
    funext p
    simp only [Function.comp_apply]
    split
    · rw [keeps]
    · rfl
  simp only [pass?, modifyPass, List.find?_map, same]
  cases found : s.passes.find? (·.id == id) with
  | none => simp
  | some p =>
    have named : p.id = id := by simpa using List.find?_some found
    by_cases here : id = k
    · simp [here, named]
    · simp [here, named]

/-- Marks a pass as under way. -/
def begin (s : Session ι) (k : Nat) : Session ι :=
  s.modifyPass k fun p => { p with state := .running }

/-- Puts a task back into the queue in the middle of a pass. -/
def suspend (s : Session ι) (t k : Nat) (e : Evaluation ι) (count : Nat) : Session ι :=
  (s.modifyTask t fun task => { task with stage := .running k e count }).push [.resume t]

/-- Ends a pass and the task that ran it. -/
def settle (s : Session ι) (t k : Nat) (state : PassState) (outcome : TaskOutcome) : Session ι :=
  ((s.modifyPass k fun p => { p with state }).acknowledge k).endTask t outcome

/-- Ends a pass, keeps its result and delivers its source. -/
def close (s : Session ι) (t k : Nat) (state : PassState) (outcome : TaskOutcome) : Session ι :=
  { s.settle t k state outcome with
    lastResult := outcome.result? <|> s.lastResult
    lastSource := outcome.delivery? <|> s.lastSource
    delivered := s.delivered ++ outcome.delivery?.toList }

theorem wakeWaiter_frame (s : Session ι) (t : Nat) :
    ∃ tasks queue, s.wakeWaiter t = { s with tasks, queue } := by
  unfold wakeWaiter
  split
  · exact ⟨_, _, rfl⟩
  · exact ⟨s.tasks, s.queue, rfl⟩

theorem acknowledge_frame (s : Session ι) (k : Nat) :
    ∃ passes tasks queue, s.acknowledge k = { s with passes, tasks, queue } := by
  have wakes : ∀ (waiters : List Nat) (s : Session ι),
      ∃ tasks queue, waiters.foldl wakeWaiter s = { s with tasks, queue } := by
    intro waiters
    induction waiters with
    | nil => exact fun s => ⟨s.tasks, s.queue, rfl⟩
    | cons t waiters ih =>
      intro s
      obtain ⟨tasks, queue, same⟩ := s.wakeWaiter_frame t
      obtain ⟨tasks', queue', same'⟩ := ih (s.wakeWaiter t)
      exact ⟨tasks', queue', by rw [List.foldl_cons, same', same]⟩
  unfold acknowledge
  split
  · rename_i p found
    obtain ⟨tasks, queue, same⟩ :=
      wakes p.waiters (s.modifyPass k fun p => { p with done := true, waiters := [] })
    exact ⟨_, tasks, queue, same⟩
  · exact ⟨s.passes, s.tasks, s.queue, rfl⟩

theorem endTask_eq {s : Session ι} {t : Nat} {task : Task ι} (there : s.task? t = some task)
    (outcome : TaskOutcome) :
    s.endTask t outcome =
      (s.modifyTask t fun task => { task with stage := .ended outcome, observers := [] }).push
        task.observers := by
  rw [endTask, there]

theorem endTask_frame (s : Session ι) (t : Nat) (outcome : TaskOutcome) :
    ∃ tasks queue, s.endTask t outcome = { s with tasks, queue } ∧
      ∀ lastSource lastResult delivered,
        { s with lastSource, lastResult, delivered }.endTask t outcome =
          { s with tasks, queue, lastSource, lastResult, delivered } := by
  cases there : s.task? t with
  | none =>
    refine ⟨s.tasks, s.queue, by rw [endTask, there], fun lastSource lastResult delivered => ?_⟩
    have there' : { s with lastSource, lastResult, delivered }.task? t = none := there
    rw [endTask, there']
  | some task =>
    refine ⟨_, _, endTask_eq there outcome, fun lastSource lastResult delivered => ?_⟩
    have there' : { s with lastSource, lastResult, delivered }.task? t = some task := there
    exact endTask_eq there' outcome

/-- Settling touches passes, tasks and the queue alone. -/
theorem settle_frame (s : Session ι) (t k : Nat) (state : PassState) (outcome : TaskOutcome) :
    ∃ passes tasks queue, s.settle t k state outcome = { s with passes, tasks, queue } := by
  obtain ⟨passes, tasks, queue, same⟩ :=
    (s.modifyPass k fun p => { p with state }).acknowledge_frame k
  obtain ⟨tasks', queue', same', -⟩ :=
    ((s.modifyPass k fun p => { p with state }).acknowledge k).endTask_frame t outcome
  exact ⟨passes, tasks', queue', by rw [settle, same', same]; rfl⟩

theorem breakPass_eq (s : Session ι) (t k : Nat) (e : Error) :
    s.breakPass t k (.failed e) = s.close t k .aborted (.failed e) := by
  obtain ⟨passes, tasks, queue, same⟩ := s.settle_frame t k .aborted (.failed e)
  rw [show s.breakPass t k (.failed e) = s.settle t k .aborted (.failed e) from rfl, close, same]
  simp [TaskOutcome.delivery?, TaskOutcome.result?]

theorem keep_eq (s : Session ι) (r : PassResult) :
    (match r.state, r.source with
      | .committed, some source =>
        { s with
          lastResult := some r
          lastSource := some source
          delivered := s.delivered ++ [source] }
      | _, _ => { s with lastResult := some r }) =
      { s with
        lastResult := some r
        lastSource := r.delivery? <|> s.lastSource
        delivered := s.delivered ++ r.delivery?.toList } := by
  unfold PassResult.delivery?
  split
  · rfl
  · simp

theorem finishPass_eq (s : Session ι) (t : Nat) (r : PassResult) :
    s.finishPass t r = s.close t r.pass r.state (.returned r) := by
  obtain ⟨passes, tasks, queue, same⟩ :=
    (s.modifyPass r.pass fun p => { p with state := r.state }).acknowledge_frame r.pass
  obtain ⟨tasks', queue', ends, ends'⟩ :=
    ((s.modifyPass r.pass fun p => { p with state := r.state }).acknowledge r.pass).endTask_frame t
      (.returned r)
  have kept :=
    keep_eq ((s.modifyPass r.pass fun p => { p with state := r.state }).acknowledge r.pass) r
  refine (congrArg (fun session => session.endTask t (.returned r)) kept).trans ?_
  rw [ends', close, settle, ends, same]
  rfl

/-- How a pass can end that comes to `due` if it is not cancelled. -/
inductive Settles (k : Nat) (cancelled : Bool) (due : Except Error String) :
    PassState → TaskOutcome → Prop
  | committed {source : String} (live : cancelled = false) (same : due = .ok source) :
      Settles k cancelled due .committed
        (.returned { pass := k, state := .committed, source := some source })
  | dropped (stopped : cancelled = true ∨ due = .error .passCancelled) :
      Settles k cancelled due .aborted (.returned { pass := k, state := .aborted })
  | aborted {e : Error} (same : due = .error e) (evaluation : e.isEvaluation = true)
      (other : e ≠ .passCancelled) :
      Settles k cancelled due .aborted
        (.returned { pass := k, state := .aborted, error := some e })
  | broken {e : Error} (same : due = .error e) (other : e.isEvaluation = false) :
      Settles k cancelled due .aborted (.failed e)

/-- The session after a task ended its pass. -/
inductive Ends (s : Session ι) (t k : Nat) (cancelled : Bool) (due : Except Error String) :
    Session ι → Prop
  | intro {state : PassState} {outcome : TaskOutcome} (log : List Event)
      (settles : Settles k cancelled due state outcome) :
      Ends s t k cancelled due ({ s with log }.close t k state outcome)

theorem failPass_ends {s : Session ι} {k : Nat} {cancelled : Bool} {due : Except Error String}
    {e : Error} (log : List Event) (t : Nat)
    (failed : cancelled = true ∧ e = .passCancelled ∨ due = .error e) :
    Ends s t k cancelled due ({ s with log }.failPass t k e) := by
  have finishes : ∀ (log : List Event) (r : PassResult), r.pass = k →
      Settles k cancelled due r.state (.returned r) →
      Ends s t k cancelled due ({ s with log }.finishPass t r) := by
    rintro log r rfl settles
    rw [finishPass_eq]
    exact .intro log settles
  by_cases stopped : e = .passCancelled
  · subst stopped
    exact finishes _ { pass := k, state := .aborted } rfl (.dropped (failed.imp_left And.left))
  · have same : due = .error e := failed.resolve_left fun both => stopped both.2
    cases evaluation : e.isEvaluation with
    | true =>
      unfold failPass
      split
      · exact absurd rfl stopped
      · exact finishes _ _ rfl (.aborted same evaluation stopped)
      · rw [if_pos evaluation]
        exact finishes _ _ rfl (.aborted same evaluation stopped)
    | false =>
      have breaks : ({ s with log }.failPass t k e) = { s with log }.breakPass t k (.failed e) := by
        unfold failPass
        split
        · exact absurd rfl stopped
        · cases evaluation
        · rw [if_neg (by simp [evaluation])]
      rw [breaks, breakPass_eq]
      exact .intro log (.broken same evaluation)

theorem commitPass_ends (s : Session ι) (log : List Event) (t : Nat) (p : Pass)
    (fragment : Fragment) (count : Nat) :
    Ends s t p.id p.cancelled (fragment.generate s.target).outcome
      ({ s with log }.commitPass t p fragment count) := by
  unfold commitPass absorb
  cases cancelled : p.cancelled with
  | true => exact failPass_ends log t (.inl ⟨rfl, rfl⟩)
  | false =>
    cases made : (fragment.generate s.target).outcome with
    | error e =>
      simp only [Bool.false_eq_true, if_false]
      exact failPass_ends _ t (.inr rfl)
    | ok source =>
      simp only [Bool.false_eq_true, if_false, finishPass_eq]
      exact .intro _ (.committed rfl rfl)

end Session

variable [BEq ι] [NodeId ι]

namespace Session

/-- A pass evaluates what its graph evaluates to at its start. -/
theorem outcome_evaluate (s : Session ι) (given : Option Json) :
    (s.graph.evaluate s.target (given <|> s.selector) false).outcome =
      (s.snapshot given >>= fun e => e.rest s.target) := by
  simp only [Graph.evaluate_eq_rest, snapshot, bind_assoc]

/-- What one turn of a task can make of a pass with at most `size` nodes left to run. -/
inductive Advances (s : Session ι) (t k : Nat) (cancelled : Bool) (due : Except Error String)
    (size : Nat) : Session ι → Prop
  | suspended {e : Evaluation ι} {count : Nat} (log : List Event) (live : cancelled = false)
      (same : e.rest s.target = due) (fewer : e.pending.length < size) :
      Advances s t k cancelled due size ({ s with log }.suspend t k e count)
  | ended {s' : Session ι} (ends : Ends s t k cancelled due s') :
      Advances s t k cancelled due size s'

/-- Running the next node suspends the pass or ends it. -/
theorem advance_advances (s : Session ι) (t : Nat) (p : Pass) (e : Evaluation ι) (count : Nat) :
    Advances s t p.id p.cancelled (e.rest s.target) e.pending.length (s.advance t p e count) := by
  unfold advance absorb
  cases stepped : (e.step p.cancelled).outcome with
  | error error => exact .ended (failPass_ends _ t (Evaluation.rest_of_error stepped s.target))
  | ok progress =>
    cases progress with
    | finished fragment =>
      rw [Evaluation.rest_of_finished stepped s.target]
      exact .ended (commitPass_ends s _ t p fragment count)
    | running next =>
      obtain ⟨live, same, fewer⟩ := Evaluation.rest_of_running stepped s.target
      exact .suspended _ live same fewer

/-- Starting a pass runs its first node or ends it. It comes to what the graph evaluates to now. -/
theorem startRun_advances {s : Session ι} {k : Nat} {p : Pass} (t : Nat)
    (present : s.pass? k = some p) (given : Option Json) :
    ∃ size, Advances (s.begin k) t k p.cancelled
      (s.graph.evaluate s.target (given <|> s.selector) false).outcome size
      (s.startRun t k given) := by
  have named : p.id = k := by simpa using List.find?_some present
  have found : (s.begin k).pass? k = some { p with state := .running } := by
    rw [begin, pass?_modifyPass s k (by simp), if_pos rfl, present, Option.map_some]
  have evaluated := (s.begin k).outcome_evaluate given
  rw [show (s.begin k).graph = s.graph from rfl, show (s.begin k).target = s.target from rfl,
    show (s.begin k).selector = s.selector from rfl] at evaluated
  unfold startRun
  rw [show s.modifyPass k (fun p => { p with state := .running }) = s.begin k from rfl, evaluated]
  simp only [found]
  cases cancelled : p.cancelled with
  | true => exact ⟨0, .ended (failPass_ends _ t (.inl ⟨rfl, rfl⟩))⟩
  | false =>
    simp only [Bool.false_eq_true, if_false]
    cases (s.begin k).snapshot given with
    | error e => exact ⟨0, .ended (failPass_ends _ t (.inr rfl))⟩
    | ok e =>
      refine ⟨e.pending.length, ?_⟩
      have advances := (s.begin k).advance_advances t { p with state := .running } e 0
      simp only [named, cancelled] at advances ⊢
      exact advances

/-- Adds a pass behind the others. -/
def addPass (s : Session ι) : Session ι :=
  { s with passes := s.passes ++ [{ id := s.passes.length + 1 }] }

/-- Puts a task behind the last pass, which is cancelled. -/
def queueUp (s : Session ι) (t : Nat) (previous : Pass) (given : Option Json) : Session ι :=
  (s.addPass.modifyPass previous.id
    fun p => { p with cancelled := true, waiters := p.waiters ++ [t] }).modifyTask t
    fun task => { task with stage := .waiting (s.passes.length + 1) given .asleep }

theorem openPass_of_open {s : Session ι} {previous : Pass} (last : s.current? = some previous)
    (undone : previous.done = false) (t : Nat) (given : Option Json) :
    ∃ log, s.openPass t given = { s.queueUp t previous given with log } := by
  unfold openPass
  simp only [last, undone, Bool.false_eq_true, if_false]
  exact ⟨_, rfl⟩

theorem openPass_of_done {s : Session ι}
    (settled : ∀ previous, s.current? = some previous → previous.done = true) (t : Nat)
    (given : Option Json) :
    s.openPass t given = s.addPass.startRun t (s.passes.length + 1) given := by
  unfold openPass
  split
  · rename_i previous last
    rw [if_pos (settled previous last)]
    rfl
  · rfl

end Session

end ShaderFlow
