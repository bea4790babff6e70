import ShaderFlow.Session.Edit
import ShaderFlow.Session.Loop
import ShaderFlow.Store

set_option autoImplicit false

/-
A watch keeps a session's graph equal to a file. Whoever notices a change of the file queues a
reload. The watch itself waits on the session's queue until it is stopped, and then until no pass is
left.
-/

namespace ShaderFlow

/-- What the watch does with the observer of the file. -/
inductive ObserverCall where
  | schedule
  | start
  | stop
  | join
  deriving DecidableEq, Inhabited

namespace ObserverCall

def name : ObserverCall → String
  | schedule => "schedule"
  | start => "start"
  | stop => "stop"
  | join => "join"

end ObserverCall

/-- How far the watch is. -/
inductive WatchStage where
  | fresh
  | waiting
  | stopping
  | gathering (number : Nat)
  | ended
  deriving DecidableEq, Inhabited

/-- Where new sources go. -/
inductive Outlet where
  | none
  | standard
  | file (p : Path)
  deriving DecidableEq, Inhabited

structure Watch where
  session : Session Int
  file : Path
  files : Files
  stage : WatchStage := .fresh
  /-- Whether the watch was told to stop. -/
  stopped : Bool := false
  observer : List ObserverCall := []
  /-- Rounds until an interrupt, counted from the start of the observer. -/
  interruptAfter : Option Nat := none
  /-- Whether somebody waits for the end of the watch. -/
  awaited : Bool := false
  outlet : Outlet := .none
  /-- What went to the standard output. -/
  printed : String := ""

namespace Watch

def queueWatcher (w : Watch) : Watch := { w with session := w.session.push [.signal .watcher] }

/-- A watch over a session, about to start. -/
def new (session : Session Int) (file : Path) (files : Files) (interruptAfter : Option Nat) :
    Watch :=
  { session := session.push [.signal .watcher], file, files, interruptAfter }

/-- Loads the file into the session. -/
def reload (w : Watch) : Watch :=
  match w.session.absorb (Store.load w.files w.file) with
  | (s, .ok (some document)) =>
    match s.loadDocument document with
    | (s, .ok ()) => { w with session := s }
    | (s, .error e) => { w with session := s.tell (.graphKept e) }
  | (s, _) => { w with session := s }

/-- Queues a reload of the file. -/
def queueReload (w : Watch) : Watch :=
  { w with session :=
      (w.session.tell (.changeDetected w.file.resolve.name)).push [.signal .reload] }

/-- Notices a change at a path, and queues a reload if it is the file's. A path that cannot be asked
for at all is a failure. -/
def notice (w : Watch) (path : Path) : Except Error Watch :=
  match Files.refusal? path with
  | some .notText => Files.fail .notText path
  | some .nullCharacter => Files.fail .nullCharacter path
  | _ => .ok (if path.resolve = w.file.resolve then w.queueReload else w)

def finish (w : Watch) : Watch :=
  let w := { w with
    stage := WatchStage.ended, observer := w.observer ++ [ObserverCall.stop, ObserverCall.join] }
  if w.awaited then { w with session := w.session.push [.signal .caller] } else w

/-- Waits until no pass is scheduled, then ends. -/
def settle (w : Watch) : Watch :=
  if w.session.scheduled.isEmpty then w.finish
  else
    let (s, number) := w.session.gatherAll .watcher
    { w with session := s, stage := .gathering number }

/-- Starts observing. An interrupt after no round at all comes before everything else. -/
def observe (w : Watch) : Watch :=
  let calls := w.observer ++ [ObserverCall.schedule, ObserverCall.start]
  match w.interruptAfter with
  | some 0 =>
    let queue := Job.signal (.interrupt 0) :: w.session.queue
    { w with session := { w.session with queue }, stage := .ended, observer := calls }
  | some rounds =>
    { w with session := w.session.push [.signal (.interrupt rounds)], observer := calls }
  | none => { w with observer := calls }

/-- Starts observing, schedules the first pass and waits. -/
def begin (w : Watch) : Watch :=
  let w := w.observe
  if w.stage = .ended then w
  else
    let w := { w with session := w.session.trigger.1, stage := WatchStage.waiting }
    if w.stopped then w.settle else w

/-- Continues the watch. -/
def resume (w : Watch) : Watch :=
  match w.stage with
  | .fresh => w.begin
  | .waiting => w
  | .stopping => w.settle
  | .gathering number =>
    match w.session.gatherFailure number with
    | some _ => w.finish
    | none => w.settle
  | .ended => w

/-- Tells the watch to stop. -/
def stop (w : Watch) : Watch :=
  if w.stopped then w
  else
    match w.stage with
    | .waiting => { w with stopped := true, stage := .stopping }.queueWatcher
    | _ => { w with stopped := true }

/-- Gives a source to the outlet. It is no failure that a file cannot be written. -/
def give (w : Watch) (source : String) : Watch :=
  match w.outlet with
  | .none => w
  | .standard => { w with printed := w.printed ++ source ++ "\n\n" }
  | .file p =>
    match w.files.writeText p (source ++ "\n") with
    | (files, .ok ()) => { w with files, session := w.session.tell (.shaderWritten p.text) }
    | (files, .error _) => { w with files }

/-- Takes over the session after a job, and gives what it delivered to the outlet. -/
def takeOver (w : Watch) (s : Session Int) : Watch :=
  (s.delivered.drop w.session.delivered.length).foldl give { w with session := s }

/-- Runs jobs until the caller or an interrupt comes up. -/
def runJobs : Nat → Watch → Watch × Option Signal
  | 0, w => (w, none)
  | fuel + 1, w =>
    match w.session.step with
    | none => (w, none)
    | some (s, .signal .caller) => ({ w with session := s }, some .caller)
    | some (s, .signal .watcher) => runJobs fuel { w with session := s }.resume
    | some (s, .signal .reload) => runJobs fuel { w with session := s }.reload
    | some (s, .signal (.interrupt rounds)) =>
      if rounds ≤ 1 then ({ w with session := s }, some (.interrupt rounds))
      else runJobs fuel { w with session := s.push [.signal (.interrupt (rounds - 1))] }
    | some (s, _) => runJobs fuel (w.takeOver s)

/-- A bound on the jobs until the caller comes up. Each reload may add a pass. -/
def budget (w : Watch) : Nat :=
  let entries := w.files.entries.foldl (fun n e =>
    match e.2 with
    | .file bytes _ => n + bytes.length
    | .directory => n) 0
  let rounds := w.interruptAfter.getD 0
  (w.session.budget + rounds + 8) * (w.session.queue.length + entries + 8)

def run (w : Watch) : Watch × Option Signal := w.runJobs w.budget

/-- Lets every job that is queued now run. -/
def tick (w : Watch) : Watch := ({ w with session := w.session.push [.signal .caller] }).run.1

def ticks : Nat → Watch → Watch
  | 0, w => w
  | n + 1, w => ticks n w.tick

/-- Waits until the watch ends. -/
def await (w : Watch) : Watch :=
  match w.stage with
  | .ended => w
  | _ => { w with awaited := true }.run.1

end Watch

end ShaderFlow
