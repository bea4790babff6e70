import ShaderFlow.Cli.Command
import ShaderFlow.Cli.Printed
import ShaderFlow.Config
import ShaderFlow.Header
import ShaderFlow.Poller
import ShaderFlow.Render.Picture
import ShaderFlow.Render.Window
import ShaderFlow.Watch

set_option autoImplicit false

namespace ShaderFlow.Cli

/-- What a command finds. -/
structure World where
  files : Files := {}
  environment : List (String × String) := []
  device : Device := {}
  /-- The rounds after which watching is interrupted. -/
  interruptAfter : Option Nat := none
  /-- The time that headers show. -/
  time : String := ""

/-- Why a command ends early. -/
inductive Stop where
  | exit (code : Nat)
  | failure (e : Error)

structure State where
  files : Files
  printed : String := ""
  /-- The least level that is shown. -/
  level : Level := .debug
  events : List Event := []
  device : Device
  /-- The watch that goes on, unless it was interrupted. -/
  watch : Option Watch := none

abbrev CommandM := ExceptT Stop (StateM State)

variable {α : Type}

/-- Shows the events of at least the chosen level. -/
def report (events : List Event) : CommandM Unit :=
  modify fun s =>
    { s with events := s.events ++ events.filter fun e => decide (s.level.rank ≤ e.level.rank) }

def tell (event : Event) : CommandM Unit := report [event]

/-- Reports a problem and ends. -/
def refuse (event : Event) : CommandM α := do
  tell event
  throw (.exit 1)

/-- Takes the outcome of a computation; its failure ends the command. -/
def need (outcome : Except Error α) : CommandM α :=
  match outcome with
  | .ok a => pure a
  | .error e => throw (.failure e)

/-- Prints a text, unless it holds what is no character. -/
def printText (text : String) : CommandM Unit := do
  let text := printable text
  let _ ← need (Files.encode text)
  modify fun s => { s with printed := s.printed ++ text }

/-- Reports what a computation logged, and gives its outcome. -/
def absorb (work : Logged α) : CommandM (Except Error α) := do
  report work.events
  return work.outcome

/-- Reads the configuration, with a target and choices over it. -/
def configure (world : World) (target : Except Error (Option Target)) (choices : Choices) :
    CommandM Config := do
  let config := do
    Config.ofEnvironment (world.environment.map fun (name, s) => (name, .str s))
      { choices with target := ← target }
  match config with
  | .ok c => return c
  | .error e => refuse (.refused e)

/-- The target named by an option. -/
def targetOf (name : Option String) : Except Error (Option Target) :=
  match name with
  | some s => (Target.ofName s).map some
  | none => .ok none

/-- Reads a graph that has to be there. -/
def readGraph (file : Path) : CommandM (Graph Int) := do
  match ← need (← absorb (Store.load (← get).files file)) with
  | none => refuse (.documentUnreadable file.text)
  | some document =>
    match ← absorb (Graph.ofDocument .builtin document) with
    | .ok g => return g
    | .error e => if e.isMalformed then refuse (.refused e) else throw (.failure e)

/-- Compiles a graph. -/
def generate (g : Graph Int) (target : Target) (sink : Option Int) : CommandM String := do
  match ← absorb (g.evaluate target (sink.map .int) false) with
  | .ok source => return source
  | .error e =>
    if e.isGraph || e.isEvaluation then refuse (.generationFailed e) else throw (.failure e)

def writeFile (p : Path) (bytes : List UInt8) : CommandM Unit := do
  let fs ← need ((← get).files.write p bytes 0)
  modify fun s => { s with files := fs }

def runNew (file : Path) (force : Bool) : CommandM Unit := do
  let fs := (← get).files
  let found ← need (fs.contains file)
  if found && !force then refuse (.fileExists file.text)
  let g : Graph Int ← need (← absorb (Graph.starter .builtin))
  let document ← need g.toDocument
  let (fs, saved) := Store.save fs file document
  modify fun s => { s with files := fs }
  need (← absorb saved)
  tell (.starterWritten file.text)

def runExport (world : World) (file : Path) (output : Option Path) (target : Option String)
    (sink : Option Int) (header : Bool) : CommandM Unit := do
  let config ← configure world (targetOf target) {}
  let source ← generate (← readGraph file) config.target sink
  let source := if header then Header.add world.time file config.target source else source
  match output with
  | none => printText (source ++ "\n")
  | some p =>
    let (fs, written) := (← get).files.writeText p (source ++ "\n")
    modify fun s => { s with files := fs }
    need written
    tell (.shaderExported p.text)

/-- The lines that describe a kind. -/
def kindLines (k : Kind) : List String :=
  let sockets (ss : List Socket) : String :=
    if ss.isEmpty then "-" else ", ".intercalate (ss.map fun s => s!"{s.key}:{s.type.name}")
  [k.name ++ (if k.isSink then " (output)" else ""), "    inputs:  " ++ sockets k.inputs,
    "    outputs: " ++ sockets k.outputs]

def runNodes : CommandM Unit :=
  printText (String.join ((Registry.builtin.kinds.flatMap kindLines).map (· ++ "\n")))

/-- Reads a still image. -/
def readImage (p : Path) : CommandM Frame := do
  let f ← need (Picture.read (← need ((← get).files.read p)))
  tell (.imageLoaded p.text f.width f.height)
  return f

/-- Works with the device. -/
def onDevice (work : DeviceM α) : CommandM α := do
  let s ← get
  let (outcome, d) := work.run { s.device with log := [] }
  set { s with device := d }
  report d.log
  need outcome

/-- A size that is given and not zero, or another. -/
def sizeOr (given : Option Int) (other : Nat) : Json :=
  match given with
  | some n => .int (if n = 0 then other else n)
  | none => .int other

/-- Saves a picture. When that fails, a file that was there before keeps what was written, and no
new one is left. -/
def saveImage (p : Path) (f : Frame) : CommandM Unit := do
  let (bytes, failure) ← need (Picture.write p f)
  let before := (← get).files
  writeFile p bytes
  match failure with
  | some e =>
    if (before.find? p).isNone then modify fun s => { s with files := before }
    throw (.failure e)
  | none => tell (.imageSaved p.text)

def runRender (world : World) (file image output : Path) (sink width height : Option Int) :
    CommandM Unit := do
  let config ← configure world (.ok (some .opengl33)) {}
  let source ← generate (← readGraph file) config.target sink
  let f ← readImage image
  let size := [sizeOr width f.width, sizeOr height f.height]
  let drawn ← onDevice (Window.renderOnce source f.toRaster size)
  saveImage output drawn

def runShow (world : World) (file : Path) (image : Option Path) (camera sink fps : Option Int)
    (maxRuntime : Option Binary64) : CommandM Unit := do
  let choices : Choices := { camera := camera.map .int, fps := fps.map .int }
  let config ← configure world (.ok (some .opengl33)) choices
  let source ← generate (← readGraph file) config.target sink
  let fs := (← get).files
  let poller := Poller.start fs file config.target (sink.map .int)
  let f ← match image with
    | some p => readImage p
    | none => throw (.failure .noFrame)
  let shown : Show := {
    source
    maxRuntime := maxRuntime.map .float
    frame := fun _ => pure f.toRaster
    size := [.int f.width, .int f.height]
    fps := config.fps.toJson
    newSource := some fun _ => (poller.poll fs).2 }
  onDevice (shown.run (shown.roundBound world.device.surroundings))

def runWatch (world : World) (file : Path) (output : Option Path) (target : Option String) :
    CommandM Unit := do
  let config ← configure world (targetOf target) {}
  let g ← readGraph file
  let session ← need (Session.new (some g) none config.target)
  let outlet := match output with
    | some p => Outlet.file p
    | none => .standard
  let w := Watch.new session file (← get).files world.interruptAfter
  let (w, signal) := { w with outlet }.run
  report w.session.log
  modify fun s => { s with files := w.files, printed := s.printed ++ w.printed }
  if signal.isSome then tell .interrupted else modify fun s => { s with watch := some w }

def runCommand (world : World) : Command → CommandM Unit
  | .new file force => runNew file force
  | .export file output target sink header => runExport world file output target sink header
  | .nodes => runNodes
  | .render file image output sink width height =>
    runRender world file image output sink width height
  | .show file image camera sink fps maxRuntime =>
    runShow world file image camera sink fps maxRuntime
  | .watch file output target => runWatch world file output target

/-- The code with which a refused command line ends. -/
def refusalCode : Refusal → Nat
  | .usage => 2
  | .help => 0

def parsed (outcome : Except Refusal α) : CommandM α :=
  match outcome with
  | .ok a => pure a
  | .error r => throw (.exit (refusalCode r))

/-- Runs a command line. The configuration is read before the arguments of the command. -/
def runLine (world : World) (args : List String) : CommandM Unit := do
  let (verbose, name, rest) ← parsed (splitCommand args)
  let level ← if verbose then pure Level.debug else do
    pure (← configure world (.ok none) {}).level
  modify fun s => { s with level }
  runCommand world (← parsed (Command.parse name rest))

/-- Goes on with a watch whose file now has other bytes. The new state has only what came anew. -/
def State.noticeChange (s : State) (w : Watch) (bytes : List UInt8) : State :=
  match w.files.write w.file bytes 0 with
  | .error _ => s
  | .ok files =>
    let (after, _) := { w with files, printed := "" }.queueReload.run
    let fresh := after.session.log.drop w.session.log.length
    { s with
      files := after.files
      printed := after.printed
      events := fresh.filter fun e => decide (s.level.rank ≤ e.level.rank)
      watch := some after }

/-- How a command line ended. -/
structure Result where
  code : Nat
  failure : Option Error
  state : State

/-- What was printed, in lines that end in one character each. -/
def Result.output (r : Result) : String := String.ofList (joinReturns r.state.printed.toList)

def run (world : World) (args : List String) : Result :=
  let start : State := { files := world.files, device := world.device }
  match (runLine world args).run start with
  | (.ok (), state) => ⟨0, none, state⟩
  | (.error (.exit code), state) => ⟨code, none, state⟩
  | (.error (.failure e), state) => ⟨1, some e, state⟩

end ShaderFlow.Cli
