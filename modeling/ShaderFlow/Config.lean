import ShaderFlow.Event
import ShaderFlow.Json.Fields
import ShaderFlow.Number.Arithmetic
import ShaderFlow.Path
import ShaderFlow.Target

set_option autoImplicit false

namespace ShaderFlow

structure Config where
  target : Target := .webgl
  stateFile : Path := ⟨"", ["shadergraph.json"]⟩
  level : Level := .info
  /-- Width and height, and whatever else was given with them. -/
  size : List Json := [.int 640, .int 480]
  /-- Frames a second; none means as many as possible. -/
  fps : Number := .int 30
  camera : Number := .int 0

/-- Settings given explicitly. Whether they are valid shows when they are taken over. -/
structure Choices where
  target : Option Target := none
  stateFile : Option Path := none
  level : Option Json := none
  size : Option (List Json) := none
  fps : Option Json := none
  camera : Option Json := none
  /-- Whether a setting was given that there is none of. -/
  hasStranger : Bool := false

namespace Choices

/-- Takes one setting over from a value. -/
def choose (c : Choices) (key : String) (v : Json) : Except Error Choices := do
  match key with
  | "target" => return { c with target := some (← Target.ofJson v) }
  | "state_file" => return { c with stateFile := some (.ofText (← v.asText)) }
  | "log_level" => return { c with level := some v }
  | "size" => return { c with size := some (← v.items) }
  | "fps" => return { c with fps := some v }
  | "camera" => return { c with camera := some v }
  | _ => return { c with hasStranger := true }

/-- The choices that members write. The target is read first. -/
def ofMembers (members : Members) : Except Error Choices :=
  let (first, others) := members.partition (·.1 == "target")
  (first ++ others).foldlM (fun c (key, v) => c.choose key v) {}

/-- The choices that an object writes. -/
def ofJson (v : Json) : Except Error Choices := do ofMembers (← v.asMembers)

def isOpen : Json → Bool
  | .null => true
  | _ => false

/-- The choices that an object writes; a setting that is null is left open. -/
def ofOpenJson (v : Json) : Except Error Choices := do
  ofMembers ((← v.asMembers).filter fun m => !isOpen m.2)

end Choices

namespace Config

/-- The level of a name in any case, which has to be a text. -/
def levelOf : Json → Except Error Level
  | .str s =>
    match Level.ofName? (Text.upper s) with
    | some level => .ok level
    | none => .error (.unknownLevel (Text.upper s))
  | _ => .error (.misuse .operation "not a text")

/-- Checks that one side of a size is not nothing or less. -/
def checkSide (size : List Json) (index : Nat) : Except Error Unit := do
  let side ← Number.ofJson (← (Json.arr size).item index)
  if side.le (.int 0) then throw (.badSize size)

/-- Takes choices over, if the result is valid. -/
def update (c : Config) (choices : Choices) : Except Error Config := do
  if choices.hasStranger then throw (.misuse .shape "no such setting")
  let level ← (choices.level.map levelOf).getD (.ok c.level)
  let size := choices.size.getD c.size
  checkSide size 0
  checkSide size 1
  let fps ← (choices.fps.map Number.ofJson).getD (.ok c.fps)
  if fps.isNegative then throw (.badFps fps)
  let camera ← (choices.camera.map Number.ofJson).getD (.ok c.camera)
  if camera.isNegative then throw (.badCamera camera)
  return {
    target := choices.target.getD c.target
    stateFile := choices.stateFile.getD c.stateFile
    level, size, fps, camera }

/-- The variable of the environment for a setting. -/
def variableName (setting : String) : String := "SHADERGRAPH_" ++ setting

def variableNames : List String :=
  ["TARGET", "STATE_FILE", "LOG_LEVEL", "CAMERA"].map variableName

/-- A setting that the environment gives and that is not empty. -/
def setting? (environment : Members) (name : String) : Option Json :=
  (environment.lookup (variableName name)).filter Json.isTruthy

/-- The settings changed by one variable. -/
def apply (c : Config) (value : Option Json) (choice : Json → Except Error Choices) :
    Except Error Config :=
  match value with
  | some v => do c.update (← choice v)
  | none => .ok c

/-- The camera that a variable names. -/
def readCamera (v : Json) : Except Error Choices :=
  match v.toInteger with
  | .ok n => .ok { camera := some (.int n) }
  | .error (.misuse .value _) => .error (.cameraNumeral v)
  | .error e => .error e

/-- The settings of an environment, with choices over them. -/
def ofEnvironment (environment : Members) (choices : Choices) : Except Error Config := do
  let value := setting? environment
  let c ← apply {} (value "TARGET") fun v => return { target := some (← Target.ofJson v) }
  let c ← c.apply (value "STATE_FILE") fun v => return { stateFile := some (.ofText (← v.asText)) }
  let c ← c.apply (value "LOG_LEVEL") fun v => return { level := some v }
  let c ← c.apply (value "CAMERA") readCamera
  c.update choices

def toJson (c : Config) : Json :=
  .obj [("target", .str c.target.name), ("state_file", .str c.stateFile.text),
    ("log_level", .str c.level.name), ("size", .arr c.size), ("fps", c.fps.toJson),
    ("camera", c.camera.toJson)]

end Config

end ShaderFlow
