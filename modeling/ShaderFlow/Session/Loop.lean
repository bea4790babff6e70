import ShaderFlow.Session.Basic

set_option autoImplicit false

namespace ShaderFlow.Session

variable {ι : Type} [BEq ι] [NodeId ι]

/-- Counts a task that ended for a gathering. The first failure settles it, or else the last
task. -/
def gatherOne (s : Session ι) (gathering t : Nat) : Session ι :=
  match s.gatherings[gathering]?, (s.task? t).bind Task.outcome? with
  | some g, some outcome =>
    if g.settled then s
    else
      let g := { g with outstanding := g.outstanding - 1 }
      let g := match outcome with
        | .returned _ => { g with settled := g.outstanding == 0 }
        | o => { g with settled := true, failure := some o }
      let s := { s with gatherings := s.gatherings.set gathering g }
      if g.settled then s.push [.signal g.owner] else s
  | _, _ => s

/-- Runs one job. -/
def runJob (s : Session ι) : Job → Session ι
  | .resume t => s.resumeTask t
  | .discard t => { s with scheduled := s.scheduled.filter (· != t) }
  | .gathered gathering t => s.gatherOne gathering t
  | .signal _ => s

/-- Takes the first job off the queue and runs it. -/
def step (s : Session ι) : Option (Session ι × Job) :=
  match s.queue with
  | [] => none
  | job :: rest => some ({ s with queue := rest }.runJob job, job)

/-- A bound on the jobs that can run before somebody outside acts again. -/
def budget (s : Session ι) : Nat :=
  let cost (t : Task ι) : Nat :=
    t.observers.length + match t.stage with
      | .fresh _ | .waiting .. => s.graph.nodes.length + 8
      | .running _ e _ => e.pending.length + 8
      | .ended _ => 0
  s.tasks.foldl (fun n t => n + cost t) (s.queue.length + s.scheduled.length + 8)

/-- Runs jobs until a signal comes up, or the queue is empty. -/
def runToSignal : Nat → Session ι → Session ι × Option Signal
  | 0, s => (s, none)
  | fuel + 1, s =>
    match s.step with
    | none => (s, none)
    | some (s, .signal g) => (s, some g)
    | some (s, _) => runToSignal fuel s

/-- Runs jobs until the next signal. -/
def toSignal (s : Session ι) : Session ι × Option Signal := s.runToSignal s.budget

/-- Lets every job that is queued now run. -/
def tick (s : Session ι) : Session ι := (s.push [.signal .caller]).toSignal.1

def ticks : Nat → Session ι → Session ι
  | 0, s => s
  | n + 1, s => ticks n s.tick

/-- Lets all jobs run. -/
def drain (s : Session ι) : Session ι := s.toSignal.1

/-- Waits until a task ends. -/
def awaitTask (s : Session ι) (t : Nat) : Session ι × Option TaskOutcome :=
  match s.task? t with
  | none => (s, none)
  | some task =>
    match task.outcome? with
    | some o => (s, some o)
    | none =>
      let s := s.modifyTask t fun task =>
        { task with observers := task.observers ++ [.signal .caller] }
      let s := s.toSignal.1
      (s, (s.task? t).bind Task.outcome?)

/-- Starts waiting for all scheduled tasks. Gives the number of the gathering. -/
def gatherAll (s : Session ι) (owner : Signal) : Session ι × Nat :=
  let number := s.gatherings.length
  let gathering : Gathering := { owner, outstanding := s.scheduled.length }
  let s : Session ι := { s with gatherings := s.gatherings ++ [gathering] }
  (s.scheduled.foldl (fun (s : Session ι) t =>
    match (s.task? t).bind Task.outcome? with
    | some _ => s.push [.gathered number t]
    | none => s.modifyTask t fun task =>
        { task with observers := task.observers ++ [.gathered number t] }) s, number)

/-- The failure that a gathering met. -/
def gatherFailure (s : Session ι) (number : Nat) : Option TaskOutcome :=
  s.gatherings[number]?.bind (·.failure)

/-- Waits until no pass is scheduled. -/
def waitRounds : Nat → Session ι → Session ι × Except TaskOutcome (Option PassResult)
  | 0, s => (s, .ok s.lastResult)
  | rounds + 1, s =>
    if s.scheduled.isEmpty then (s, .ok s.lastResult)
    else
      let (s, number) := s.gatherAll .caller
      let s := s.toSignal.1
      match s.gatherFailure number with
      | some failure => (s, .error failure)
      | none => waitRounds rounds s

def waitIdle (s : Session ι) : Session ι × Except TaskOutcome (Option PassResult) :=
  waitRounds (s.scheduled.length + 1) s

end ShaderFlow.Session
