import ShaderFlow.Error

set_option autoImplicit false

namespace ShaderFlow

/-- Levels of importance, from the least one up. -/
inductive Level where
  | trace
  | debug
  | info
  | success
  | warning
  | error
  | critical
  deriving DecidableEq, Inhabited

namespace Level

def all : List Level := [trace, debug, info, success, warning, error, critical]

def name : Level → String
  | trace => "TRACE"
  | debug => "DEBUG"
  | info => "INFO"
  | success => "SUCCESS"
  | warning => "WARNING"
  | error => "ERROR"
  | critical => "CRITICAL"

def ofName? (s : String) : Option Level := all.find? (·.name == s)

def rank : Level → Nat
  | trace => 5
  | debug => 10
  | info => 20
  | success => 25
  | warning => 30
  | error => 40
  | critical => 50

end Level

inductive Event where
  -- graphs
  | nodeAdded (id : Json) (kind : String)
  | nodeRemoved (id : Json) (kind : String)
  | connected (link : Declaration Json)
  -- evaluation
  | evaluated (id : Json) (kind : String)
  | emitting (definitions unused hits : Nat)
  | passCancels (newer older : Nat)
  | passDropped (id : Nat)
  | passIdle (id : Nat) (cause : Error)
  | passAborted (id : Nat) (cause : Error)
  | passCommitted (id nodes : Nat)
  | noLoop
  -- saved state
  | stateMissing (path : String)
  | stateUnreadable (path reason : String)
  | stateNotObject (path : String)
  | stateIgnored (path : String) (cause : Error)
  | stateSaved (path : String)
  -- watching
  | changeDetected (name : String)
  | graphKept (cause : Error)
  | shaderKept (cause : Error)
  -- rendering
  | compileError
  | compiled (uniforms : List String)
  | reloaded
  | windowError (cause : Error)
  | running (fps : Number)
  | runtimeReached (seconds : Binary64)
  | imageLoaded (path : String) (width height : Nat)
  | imageSaved (path : String)
  | cameraOpened (index : Json) (width height : Nat)
  | cameraStopped (index : Json)
  -- commands
  | refused (cause : Error)
  | generationFailed (cause : Error)
  | documentUnreadable (path : String)
  | fileExists (path : String)
  | starterWritten (path : String)
  | shaderExported (path : String)
  | shaderWritten (path : String)
  | interrupted
  deriving Inhabited

namespace Event

def level : Event → Level
  | nodeAdded .. | nodeRemoved .. | connected _ | evaluated .. | emitting .. | passCancels ..
  | passDropped _ | noLoop | stateMissing _ | stateSaved _ | compiled _ => .debug
  | passIdle .. | passCommitted .. | changeDetected _ | reloaded | running _ | runtimeReached _
  | imageLoaded .. | imageSaved _ | cameraOpened .. | starterWritten _ | shaderExported _
  | shaderWritten _ | interrupted => .info
  | passAborted .. | stateUnreadable .. | stateNotObject _ | stateIgnored ..
  | cameraStopped _ => .warning
  | graphKept _ | shaderKept _ | compileError | windowError _ | refused _ | generationFailed _
  | documentUnreadable _ | fileExists _ => .error

def message : Event → String
  | nodeAdded id kind => s!"Added node {id.bare} ({kind})"
  | nodeRemoved id kind => s!"Removed node {id.bare} ({kind})"
  | connected link => s!"Connected {link.text}"
  | evaluated id kind => s!"Evaluated node {id.bare} ({kind})"
  | emitting definitions unused hits =>
    s!"Emitting {definitions} definitions ({unused} unused, {hits} shared samples)"
  | passCancels newer older => s!"Pass {newer} cancels pass {older}"
  | passDropped id => s!"Pass {id} aborted: cancelled"
  | passIdle id cause => s!"Pass {id} has nothing to render: {cause.message}"
  | passAborted id cause => s!"Pass {id} aborted: {cause.message}"
  | passCommitted id nodes => s!"Pass {id} committed ({nodes} nodes evaluated)"
  | noLoop => "No running event loop, pass not scheduled"
  | stateMissing path => s!"No editor state at {path}"
  | stateUnreadable path reason => s!"Could not read editor state {path}: {reason}"
  | stateNotObject path => s!"Editor state {path} is not a JSON object"
  | stateIgnored path cause => s!"Ignoring malformed editor state {path}: {cause.message}"
  | stateSaved path => s!"Saved editor state to {path}"
  | changeDetected name => s!"Detected changes in {name}"
  | graphKept cause => s!"Keeping previous graph: {cause.message}"
  | shaderKept cause => s!"Keeping previous shader: {cause.message}"
  | compileError => "Shader compilation error"
  | compiled uniforms =>
    "Shader compiled, uniforms: [" ++ ", ".intercalate (uniforms.map Text.quoted) ++ "]"
  | reloaded => "Shader reloaded"
  | windowError cause => s!"GLFW initialization error: {cause.message}"
  | running fps => s!"Running at {fps.text}fps (press ESC to exit)"
  | runtimeReached seconds => s!"Maximum runtime of {seconds.fixed 2}s reached, stopping"
  | imageLoaded path width height => s!"Loaded image {path} ({width}x{height})"
  | imageSaved path => s!"Image saved to {path}"
  | cameraOpened index width height => s!"Opened camera {index.bare} ({width}x{height})"
  | cameraStopped index => s!"Camera {index.bare} stopped delivering frames"
  | refused cause => cause.message
  | generationFailed cause => s!"Generation failed: {cause.message}"
  | documentUnreadable path => s!"Cannot read graph document {path}"
  | fileExists path => s!"{path} already exists (use --force to overwrite)"
  | starterWritten path => s!"Starter graph written to {path}"
  | shaderExported path => s!"Shader exported to {path}"
  | shaderWritten path => s!"Shader written to {path}"
  | interrupted => "Keyboard interrupt received, stopping..."

end Event

end ShaderFlow
