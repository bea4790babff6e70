import ShaderFlow.Logged
import ShaderFlow.Number.Arithmetic
import ShaderFlow.Render.Raster
import ShaderFlow.Target
import ShaderFlow.Text.Hex

set_option autoImplicit false

/-
Everything the library asks of graphics, windows and clocks is a call of the device. The device
keeps all calls in order, so that what happened is what its trace says. Any one call may be made to
fail.
-/

namespace ShaderFlow

/-- What a device owns on behalf of a canvas. -/
inductive Resource where
  | program (n : Nat)
  | buffer (n : Nat)
  | vertexArray (n : Nat)
  | texture (n : Nat)
  | framebuffer (n : Nat)
  deriving DecidableEq, Inhabited

namespace Resource

def name : Resource → String
  | program n => s!"program{n}"
  | buffer n => s!"buffer{n}"
  | vertexArray n => s!"vao{n}"
  | texture n => s!"texture{n}"
  | framebuffer n => s!"fbo{n}"

end Resource

inductive Call where
  -- windows
  | startUp
  | hintMajor (n : Nat)
  | hintMinor (n : Nat)
  | hintProfile (name : String)
  | hintForward
  | openWindow (width height title : String)
  | makeCurrent
  | listenKeys
  | askClosing
  | pollEvents
  | closeWindow
  | swapInterval (n : Nat)
  | swapBuffers
  | shutDown
  -- contexts
  | openContext (version : Option Nat)
  | releaseContext
  -- resources
  | compile (program : Nat) (vertexShader source : String)
  | compileFailure (source : String)
  | makeBuffer (n : Nat)
  | makeVertexArray (n program buffer : Nat)
  | makeTexture (n width height components : Nat)
  | filterTexture (n : Nat)
  | clampAcross (n : Nat)
  | clampAlong (n : Nat)
  | writeTexture (n : Nat) (bytes : List UInt8)
  | useTexture (n : Nat)
  | makeFramebuffer (n : Nat) (size : List String)
  | useFramebuffer (n : Nat)
  | readFramebuffer (n : Nat)
  | release (r : Resource)
  -- drawing
  | useScreen
  | clear
  | setResolution (program : Nat) (size : List Binary64)
  | setVideo (program : Nat)
  | draw (vertexArray : Nat)
  -- others
  | clock
  | sleep
  | askSource
  | readFrame
  deriving DecidableEq, Inhabited

namespace Call

/-- The record of a call. Questions leave none. -/
def text? : Call → Option String
  | startUp => some "init"
  | hintMajor n => some s!"window_hint major {n}"
  | hintMinor n => some s!"window_hint minor {n}"
  | hintProfile name => some s!"window_hint profile {name}"
  | hintForward => some "window_hint forward True"
  | openWindow width height title => some s!"create_window {width}x{height} {title}"
  | makeCurrent => some "make_context_current window"
  | closeWindow => some "should_close True"
  | swapInterval n => some s!"swap_interval {n}"
  | swapBuffers => some "swap_buffers window"
  | shutDown => some "terminate"
  | openContext none => some "create_context []"
  | openContext (some version) =>
    some s!"create_context [('require', {version}), ('standalone', True)]"
  | releaseContext => some "context release"
  | compile n vertexShader source =>
    some s!"{(Resource.program n).name} compiled {vertexShader.length} {source}"
  | compileFailure _ => some "compile error"
  | makeBuffer n =>
    some s!"{(Resource.buffer n).name} [-1.0, -1.0, 1.0, -1.0, -1.0, 1.0, 1.0, 1.0]"
  | makeVertexArray n program buffer =>
    some (s!"{(Resource.vertexArray n).name} {(Resource.program program).name} " ++
      s!"{(Resource.buffer buffer).name} in_position")
  | makeTexture n width height components =>
    some s!"{(Resource.texture n).name} ({width}, {height}) {components}"
  | filterTexture n => some s!"{(Resource.texture n).name}.filter = (9729, 9729)"
  | clampAcross n => some s!"{(Resource.texture n).name}.repeat_x = False"
  | clampAlong n => some s!"{(Resource.texture n).name}.repeat_y = False"
  | writeTexture n bytes => some s!"{(Resource.texture n).name} write {Text.hexBytes bytes}"
  | useTexture n => some s!"{(Resource.texture n).name} use 0"
  | makeFramebuffer n size =>
    some s!"{(Resource.framebuffer n).name} {Error.tupleText size}"
  | useFramebuffer n => some s!"{(Resource.framebuffer n).name} use"
  | readFramebuffer n => some s!"{(Resource.framebuffer n).name} read 4 f1"
  | release r => some s!"{r.name} release"
  | useScreen => some "screen use"
  | clear => some "clear (0.0, 0.0, 0.0, 1.0)"
  | setResolution program size =>
    some (s!"{(Resource.program program).name}[resolution].value = " ++
      Error.tupleText (size.map Binary64.text))
  | setVideo program => some s!"{(Resource.program program).name}[videoTexture].value = 0"
  | draw vertexArray => some s!"{(Resource.vertexArray vertexArray).name} render 5"
  | sleep => some "sleep 0.001"
  | listenKeys | askClosing | pollEvents | clock | askSource | readFrame => none

end Call

/-- How the world outside answers. -/
structure Surroundings where
  startsUp : Bool := true
  opensWindow : Bool := true
  compiles : String → Bool := fun _ => true
  /-- The uniforms that a fragment shader uses. -/
  uniforms : String → List String := fun _ => []
  /-- The bytes of a picture of a width and height that is read back. -/
  pixels : Int → Int → List UInt8 := fun _ _ => []
  /-- The answers of the clock; after them each is a fixed time later than the one before. There has
  to be such a time also while answers are given. -/
  times : List Json := []
  /-- The keys pressed or released by the time of a poll for events, by the number of the poll. An
  event is a pair of a key and what became of it. -/
  keys : Members := []

/-- How many resources of each sort were made. -/
structure Counts where
  programs : Nat := 0
  buffers : Nat := 0
  vertexArrays : Nat := 0
  textures : Nat := 0
  framebuffers : Nat := 0
  deriving DecidableEq, Inhabited

structure Device where
  surroundings : Surroundings := {}
  /-- All calls so far. -/
  calls : List Call := []
  /-- The number of the call that fails, if one does. -/
  faultAt : Option Nat := none
  counts : Counts := {}
  /-- The last answer of the clock. -/
  time : Json := .int 0
  /-- How often the clock was asked. -/
  ticks : Nat := 0
  /-- How often events were polled. -/
  polls : Nat := 0
  /-- Whether the window is to close. -/
  closing : Bool := false
  log : List Event := []

namespace Device

/-- The records of all calls. -/
def records (d : Device) : List String := d.calls.filterMap Call.text?

end Device

/-- Work with a device. What happened before a failure stays. -/
abbrev DeviceM := ExceptT Error (StateM Device)

namespace DeviceM

variable {α : Type}

/-- Makes a call, which may fail. -/
def perform (c : Call) : DeviceM Unit := do
  let d ← get
  if d.faultAt = some d.calls.length then
    set { d with faultAt := none }
    throw .collaboratorFailed
  else set { d with calls := d.calls ++ [c] }

/-- Makes a call that does not fail. -/
def cleanUp (c : Call) : DeviceM Unit :=
  modify fun d => { d with calls := d.calls ++ [c] }

def tell (event : Event) : DeviceM Unit := modify fun d => { d with log := d.log ++ [event] }

def fail (e : Error) : DeviceM α := ExceptT.mk fun d => (.error e, d)

/-- Runs work and gives its outcome. -/
def attempt (work : DeviceM α) : DeviceM (Except Error α) :=
  ExceptT.mk fun d =>
    let (outcome, d) := work.run d
    (.ok outcome, d)

/-- Runs work, and then more if it fails. -/
def onFailure (work : DeviceM α) (more : Error → DeviceM Unit) : DeviceM α := do
  match ← attempt work with
  | .ok a => return a
  | .error e =>
    more e
    fail e

/-- Adds what a computation logged, and takes its outcome. -/
def absorb (work : Logged α) : DeviceM α :=
  ExceptT.mk fun d => (work.outcome, { d with log := d.log ++ work.events })

/-- The time between answers of the clock once they are not given. -/
def clockStep : Number := .float (.tenths 10000)

/-- Asks the clock. Its answer has to be a number only once something is reckoned with it. -/
def now : DeviceM Json := do
  perform .clock
  let d ← get
  let last ← (Number.ofJson d.time : Except Error Number)
  let later ← (last.add clockStep : Except Error Number)
  let time := d.surroundings.times[d.ticks]?.getD later.toJson
  set { d with time, ticks := d.ticks + 1 }
  return time

def escapeKey : Json := .int 256

def pressed : Json := .int 1

/-- Takes in the key events so far. The escape key closes the window. -/
def pollEvents : DeviceM Unit := do
  perform .pollEvents
  let d ← get
  set { d with polls := d.polls + 1 }
  let events := (d.surroundings.keys.lookup (toString d.polls)).getD (.arr [])
  (← (events.items : Except Error (List Json))).forM fun event => do
    let (key, action) ← (event.pair : Except Error (Json × Json))
    if key.alike escapeKey && action.alike pressed then
      perform .closeWindow
      modify fun d => { d with closing := true }

/-- Whether the window is to close. -/
def isClosing : DeviceM Bool := do
  perform .askClosing
  return (← get).closing

end DeviceM

end ShaderFlow
