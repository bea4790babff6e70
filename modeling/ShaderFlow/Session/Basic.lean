import ShaderFlow.Evaluation.Basic
import ShaderFlow.Graph.Document

set_option autoImplicit false

/-
A session owns a graph and keeps its shader current. Each pass is a task on a queue of jobs that run
one after the other. Passes are single flight: a new pass cancels the one before it and waits until
that one is done, so sources are delivered in the order of the passes and a cancelled pass delivers
nothing.
-/

namespace ShaderFlow

inductive PassState where
  | idle
  | running
  | committed
  | aborted
  deriving DecidableEq, Inhabited

namespace PassState

def name : PassState → String
  | idle => "IDLE"
  | running => "RUNNING"
  | committed => "COMMITTED"
  | aborted => "ABORTED"

end PassState

/-- The outcome of a pass as its caller sees it. -/
structure PassResult where
  pass : Nat
  state : PassState
  source : Option String := none
  error : Option Error := none

/-- A pass with its cancellation mark, and the tasks that wait until it is done. -/
structure Pass where
  id : Nat
  cancelled : Bool := false
  state : PassState := .idle
  done : Bool := false
  waiters : List Nat := []

/-- Those outside the session that a job hands control to. -/
inductive Signal where
  | caller
  | watcher
  | reload
  | interrupt (rounds : Nat)
  deriving DecidableEq, Inhabited

/-- An entry of the queue. -/
inductive Job where
  /-- Continue a task. -/
  | resume (task : Nat)
  /-- Forget a scheduled task that ended. -/
  | discard (task : Nat)
  /-- Tell a gathering that a task ended. -/
  | gathered (gathering task : Nat)
  | signal (s : Signal)
  deriving DecidableEq, Inhabited

/-- Whether a waiting task was woken, and how. -/
inductive Wake where
  | asleep
  | ready
  | cancelled
  deriving DecidableEq, Inhabited

inductive TaskOutcome where
  | returned (r : PassResult)
  | failed (e : Error)
  | cancelled

/-- How far a task is. -/
inductive Stage (ι : Type) where
  | fresh (selector : Option Json)
  | waiting (pass : Nat) (selector : Option Json) (wake : Wake)
  | running (pass : Nat) (evaluation : Evaluation ι) (count : Nat)
  | ended (outcome : TaskOutcome)

structure Task (ι : Type) where
  stage : Stage ι
  /-- Whether the next step raises the cancellation. -/
  cancelRequested : Bool := false
  /-- The jobs to queue when the task ends. -/
  observers : List Job := []

namespace Task

variable {ι : Type}

def outcome? (t : Task ι) : Option TaskOutcome :=
  match t.stage with
  | .ended o => some o
  | _ => none

end Task

/-- Somebody who waits for several tasks at once. -/
structure Gathering where
  owner : Signal
  outstanding : Nat
  settled : Bool := false
  failure : Option TaskOutcome := none

structure Session (ι : Type) where
  graph : Graph ι
  target : Target := .webgl
  /-- The sink of passes that name none. -/
  selector : Option Json := none
  /-- Whether jobs can be queued at all. -/
  hasLoop : Bool := true
  /-- Whether anybody is told of changes. -/
  hasListener : Bool := true
  passes : List Pass := []
  tasks : List (Task ι) := []
  /-- The tasks that edits and triggers started and that did not end. -/
  scheduled : List Nat := []
  gatherings : List Gathering := []
  queue : List Job := []
  lastSource : Option String := none
  lastResult : Option PassResult := none
  /-- All sources delivered so far. -/
  delivered : List String := []
  /-- The documents after each edit so far. -/
  changes : List Json := []
  log : List Event := []

namespace Session

variable {ι : Type} [BEq ι] [NodeId ι]

/-- The session of a graph over a registry. A registry given beside the graph has to be the graph's
own. -/
def new (graph : Option (Graph ι)) (registry : Option Registry) (target : Target) :
    Except Error (Session ι) :=
  match graph, registry with
  | some g, none => .ok { graph := g, target }
  | some g, some r =>
    if r.tag = g.registry.tag then .ok { graph := g, target } else .error .foreignRegistry
  | none, r => .ok { graph := { registry := r.getD .builtin }, target }

/-- The most recent pass. -/
def current? (s : Session ι) : Option Pass := s.passes.getLast?

def state (s : Session ι) : PassState :=
  match s.current? with
  | some p => p.state
  | none => .idle

def pass? (s : Session ι) (id : Nat) : Option Pass := s.passes.find? (·.id == id)

def task? (s : Session ι) (t : Nat) : Option (Task ι) := s.tasks[t]?

def stage? (s : Session ι) (t : Nat) : Option (Stage ι) := (s.task? t).map fun task => task.stage

/-- Adds what a computation logged, and gives its outcome. -/
def absorb {α : Type} (s : Session ι) (work : Logged α) : Session ι × Except Error α :=
  ({ s with log := s.log ++ work.events }, work.outcome)

def tell (s : Session ι) (event : Event) : Session ι := { s with log := s.log ++ [event] }

def push (s : Session ι) (jobs : List Job) : Session ι := { s with queue := s.queue ++ jobs }

def modifyPass (s : Session ι) (id : Nat) (f : Pass → Pass) : Session ι :=
  { s with passes := s.passes.map fun p => if p.id == id then f p else p }

def modifyTask (s : Session ι) (t : Nat) (f : Task ι → Task ι) : Session ι :=
  { s with tasks := s.tasks.modify t f }

/-- Makes a task of a pass. -/
def spawn (s : Session ι) (selector : Option Json) (observers : Nat → List Job) : Session ι × Nat :=
  let t := s.tasks.length
  let task : Task ι := { stage := .fresh selector, observers := observers t }
  ({ s with tasks := s.tasks ++ [task] }.push [.resume t], t)

/-- Starts a pass for a sink. -/
def process (s : Session ι) (selector : Option Json) : Session ι × Nat :=
  s.spawn selector fun _ => []

/-- Schedules a pass over the current graph. -/
def trigger (s : Session ι) : Session ι × Option Nat :=
  if s.hasLoop then
    let (s, t) := s.spawn none fun t => [.discard t]
    ({ s with scheduled := s.scheduled ++ [t] }, some t)
  else (s.tell .noLoop, none)

/-- Ends a task and queues those who wait for it. -/
def endTask (s : Session ι) (t : Nat) (outcome : TaskOutcome) : Session ι :=
  match s.task? t with
  | some task =>
    (s.modifyTask t fun task => { task with stage := .ended outcome, observers := [] }).push
      task.observers
  | none => s

/-- Wakes a task that waits for a pass. -/
def wakeWaiter (s : Session ι) (t : Nat) : Session ι :=
  match s.stage? t with
  | some (.waiting pass selector .asleep) =>
    (s.modifyTask t fun task => { task with stage := .waiting pass selector .ready }).push
      [.resume t]
  | _ => s

/-- Marks a pass done and wakes those who wait for it. -/
def acknowledge (s : Session ι) (id : Nat) : Session ι :=
  match s.pass? id with
  | some p =>
    p.waiters.foldl wakeWaiter (s.modifyPass id fun p => { p with done := true, waiters := [] })
  | none => s

/-- Ends a pass with a result, and delivers its source if it committed. -/
def finishPass (s : Session ι) (t : Nat) (r : PassResult) : Session ι :=
  let s := s.modifyPass r.pass fun p => { p with state := r.state }
  let s := { s.acknowledge r.pass with lastResult := some r }
  let s := match r.state, r.source with
    | .committed, some source =>
      { s with lastSource := some source, delivered := s.delivered ++ [source] }
    | _, _ => s
  s.endTask t (.returned r)

/-- Ends a pass without a result. -/
def breakPass (s : Session ι) (t id : Nat) (outcome : TaskOutcome) : Session ι :=
  let s := s.modifyPass id fun p => { p with state := .aborted }
  (s.acknowledge id).endTask t outcome

/-- Ends a pass that failed. Failures of evaluation are its result, others break it. -/
def failPass (s : Session ι) (t id : Nat) (e : Error) : Session ι :=
  match e with
  | .passCancelled =>
    (s.tell (.passDropped id)).finishPass t { pass := id, state := .aborted }
  | .noSink _ =>
    (s.tell (.passIdle id e)).finishPass t { pass := id, state := .aborted, error := some e }
  | _ =>
    if e.isEvaluation then
      (s.tell (.passAborted id e)).finishPass t { pass := id, state := .aborted, error := some e }
    else s.breakPass t id (.failed e)

/-- Ends a pass whose evaluation is over. -/
def commitPass (s : Session ι) (t : Nat) (p : Pass) (fragment : Fragment) (count : Nat) :
    Session ι :=
  if p.cancelled then s.failPass t p.id .passCancelled
  else
    match s.absorb (fragment.generate s.target) with
    | (s, .error e) => s.failPass t p.id e
    | (s, .ok source) =>
      (s.tell (.passCommitted p.id count)).finishPass t
        { pass := p.id, state := .committed, source := some source }

/-- Runs the next node of a pass, or ends it. -/
def advance (s : Session ι) (t : Nat) (p : Pass) (e : Evaluation ι) (count : Nat) : Session ι :=
  match s.absorb (e.step p.cancelled) with
  | (s, .error error) => s.failPass t p.id error
  | (s, .ok (.finished fragment)) => s.commitPass t p fragment count
  | (s, .ok (.running next)) =>
    (s.modifyTask t fun task => { task with stage := .running p.id next (count + 1) }).push
      [.resume t]

/-- The evaluation of the current graph for a sink. -/
def snapshot (s : Session ι) (selector : Option Json) : Except Error (Evaluation ι) := do
  let sink ← s.graph.selectSink (selector <|> s.selector)
  Evaluation.start s.graph sink.id

/-- Starts the evaluation of a pass. -/
def startRun (s : Session ι) (t id : Nat) (selector : Option Json) : Session ι :=
  let s := s.modifyPass id fun p => { p with state := .running }
  match s.pass? id with
  | none => s
  | some p =>
    if p.cancelled then s.failPass t id .passCancelled
    else
      match s.snapshot selector with
      | .error e => s.failPass t id e
      | .ok e => s.advance t p e 0

/-- Opens a pass. If the pass before it is not done, that one is cancelled and waited for. -/
def openPass (s : Session ι) (t : Nat) (selector : Option Json) : Session ι :=
  let id := s.passes.length + 1
  let opened : Session ι := { s with passes := s.passes ++ [{ id }] }
  match s.current? with
  | some previous =>
    if previous.done then opened.startRun t id selector
    else
      let s := opened.tell (.passCancels id previous.id)
      let s := s.modifyPass previous.id fun p =>
        { p with cancelled := true, waiters := p.waiters ++ [t] }
      s.modifyTask t fun task => { task with stage := .waiting id selector .asleep }
  | none => opened.startRun t id selector

/-- Runs a task until it waits again or ends. -/
def resumeTask (s : Session ι) (t : Nat) : Session ι :=
  match s.task? t with
  | none => s
  | some task =>
    match task.stage with
    | .fresh selector =>
      if task.cancelRequested then s.endTask t .cancelled else s.openPass t selector
    | .waiting pass selector wake =>
      if task.cancelRequested || wake == .cancelled then s.endTask t .cancelled
      else s.startRun t pass selector
    | .running pass e count =>
      if task.cancelRequested then s.breakPass t pass .cancelled
      else
        match s.pass? pass with
        | some p => s.advance t p e count
        | none => s
    | .ended _ => s

/-- Asks a task to end. A task that ended cannot be cancelled. -/
def cancel (s : Session ι) (t : Nat) : Session ι × Bool :=
  match s.stage? t with
  | none | some (.ended _) => (s, false)
  | some (.waiting pass selector .asleep) =>
    ((s.modifyTask t fun task => { task with stage := .waiting pass selector .cancelled }).push
      [.resume t], true)
  | some _ => (s.modifyTask t fun task => { task with cancelRequested := true }, true)

end Session

end ShaderFlow
