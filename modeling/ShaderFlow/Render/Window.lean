import ShaderFlow.Render.Canvas
import ShaderFlow.Render.Pacing

set_option autoImplicit false

namespace ShaderFlow

open DeviceM

namespace Window

/-- Asks for a window of the version and profile that drawing needs. -/
def openWindow (runtime : Runtime) (size : List Json) (title : Json) : DeviceM Unit := do
  perform (.hintMajor runtime.major)
  perform (.hintMinor runtime.minor)
  perform (.hintProfile runtime.profile)
  perform .hintForward
  match size with
  | width :: height :: _ => perform (.openWindow width.bare height.bare title.bare)
  | _ => fail (.misuse .item "tuple index out of range")
  if !(← get).surroundings.opensWindow then fail .windowFailed

/-- Opens a window and a context in it. -/
def openContext (runtime : Runtime) (size : List Json) (title : Json) : DeviceM Unit := do
  perform .startUp
  if !(← get).surroundings.startsUp then fail .initFailed
  onFailure (openWindow runtime size title) fun e => do
    tell (.windowError e)
    cleanUp .shutDown
  perform .makeCurrent
  perform .listenKeys
  perform (.openContext none)

/-- Gives back the context, and the window if there is one. -/
def close (windowed : Bool) : DeviceM Unit := do
  cleanUp .releaseContext
  if windowed then cleanUp .shutDown

/-- Makes a canvas in an open context, works with it, and gives everything back. -/
def withCanvas {α : Type} (source : String) (size : List Json) (windowed : Bool)
    (work : CanvasM α) : DeviceM α :=
  ExceptT.mk fun d =>
    match Canvas.new source size d with
    | .error (e, d) => (.error e, ((close windowed).run d).2)
    | .ok c =>
      let (outcome, c) := work.run c
      let (_, c) := Canvas.release.run c
      (outcome, ((close windowed).run c.device).2)

/-- Renders a single frame offscreen. -/
def renderOnce (source : String) (r : Raster) (size : List Json) : DeviceM Frame := do
  let runtime ← (Target.opengl33.runtime : Except Error Runtime)
  perform (.openContext (some (runtime.major * 100 + runtime.minor * 10)))
  withCanvas source size false (do
    CanvasM.perform .readFrame
    Canvas.renderFrame r)

end Window

/-- What a window shows and how. Whether sizes, rates and times are numbers shows when they are
used. -/
structure Show where
  source : String
  /-- The frame of each read, from zero. -/
  frame : Nat → Logged Raster
  size : List Json := [.int 640, .int 480]
  fps : Json := .int 30
  title : Json := .str "shadergraph"
  /-- The answer to each question for a new source, from zero, if such questions are asked. -/
  newSource : Option (Nat → Logged (Option String)) := none
  maxRuntime : Option Json := none

/-- Progress of a live window. -/
structure Live where
  start : Json
  previous : Json
  fps : Number
  /-- The time between frames. -/
  interval : Binary64
  lag : Binary64
  rounds : Nat := 0
  drawn : Nat := 0

namespace Show

/-- Takes in a new source, if there is one. -/
def refresh (s : Show) (live : Live) : CanvasM Unit := do
  match s.newSource with
  | none => pure ()
  | some answer =>
    CanvasM.perform .askSource
    match ← CanvasM.onDevice (absorb (answer live.rounds)) with
    | some source => let _ ← Canvas.reload source
    | none => pure ()

/-- Draws the next frame in the window. -/
def drawNext (s : Show) (live : Live) : CanvasM Unit := do
  CanvasM.perform .useScreen
  CanvasM.perform .readFrame
  let r ← CanvasM.onDevice (absorb (s.frame live.drawn))
  Canvas.draw r
  CanvasM.perform .swapBuffers

/-- The time from one answer of the clock to another. -/
def elapsed (start current : Json) : Except Error Number := do
  let a ← Number.ofJson current
  a.sub (← Number.ofJson start)

/-- The longest time that the window may run, if it ran for so long. -/
def reached (s : Show) (start current : Json) : Except Error (Option Number) := do
  match s.maxRuntime with
  | none => return none
  | some limit =>
    let time ← elapsed start current
    let limit ← Number.ofJson limit
    return if limit.le time then some limit else none

/-- Runs the window for a number of rounds at most. -/
def loop (s : Show) : Nat → Live → CanvasM Unit
  | 0, _ => pure ()
  | rounds + 1, live => do
    if ← CanvasM.onDevice isClosing then return
    let current ← CanvasM.onDevice now
    match ← (s.reached live.start current : Except Error (Option Number)) with
    | some limit =>
      let seconds ← (limit.toFloat : Except Error Binary64)
      CanvasM.onDevice (tell (.runtimeReached seconds))
    | none =>
      let passed ← (elapsed live.previous current : Except Error Number)
      let lag := live.lag.add (← (passed.toFloat : Except Error Binary64))
      CanvasM.onDevice pollEvents
      s.refresh live
      let (isDue, lag) := Pacing.due live.fps lag live.interval
      let live := { live with previous := current, lag, rounds := live.rounds + 1 }
      if isDue then
        s.drawNext live
        s.loop rounds { live with drawn := live.drawn + 1 }
      else
        CanvasM.perform .sleep
        s.loop rounds live

/-- Runs the window with its canvas. -/
def live (s : Show) (rounds : Nat) : CanvasM Unit := do
  let fps ← (Number.ofJson s.fps : Except Error Number)
  let interval ← (Pacing.interval fps : Except Error Binary64)
  CanvasM.perform (.swapInterval (if fps.isPositive then 1 else 0))
  let start ← CanvasM.onDevice now
  CanvasM.onDevice (tell (.running fps))
  s.loop rounds { start, previous := start, fps, interval, lag := Pacing.zero }

/-- Shows the shader in a window until it closes. -/
def run (s : Show) (rounds : Nat) : DeviceM Unit := do
  let runtime ← (Target.opengl33.runtime : Except Error Runtime)
  Window.openContext runtime s.size s.title
  Window.withCanvas s.source s.size true (s.live rounds)

/-- A number of rounds after which a window with a closing key or a limited time has closed. The
clock goes on from its last given answer, and the window's time counts from the first. -/
def roundBound (s : Show) (surroundings : Surroundings) : Nat :=
  let keyed := surroundings.keys.foldl (fun n k => max n (k.1.toNat?.getD 0 + 2)) 0
  let whole (x : Json) : Nat := (x.toInteger.toOption.getD 0).natAbs
  let timed := match s.maxRuntime with
    | some limit =>
      let seconds := surroundings.times.foldl (fun n t => n + whole t + 1) (whole limit)
      surroundings.times.length + seconds / 1000 + 4
    | none => surroundings.times.length + 4
  max keyed timed

end Show

end ShaderFlow
