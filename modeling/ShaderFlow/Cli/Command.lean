import ShaderFlow.Cli.Arguments

set_option autoImplicit false

namespace ShaderFlow.Cli

inductive Command where
  /-- Write the starter graph. -/
  | new (file : Path) (force : Bool)
  /-- Compile a graph to a file, or to the standard output. -/
  | export (file : Path) (output : Option Path) (target : Option String) (sink : Option Int)
      (header : Bool)
  /-- List the node kinds. -/
  | nodes
  /-- Draw a graph over a still image. -/
  | render (file image output : Path) (sink width height : Option Int)
  /-- Show a graph in a window. -/
  | show (file : Path) (image : Option Path) (camera sink fps : Option Int)
      (maxRuntime : Option Binary64)
  /-- Compile a graph again whenever its file changes. -/
  | watch (file : Path) (output : Option Path) (target : Option String)

def commandNames : List String := ["new", "export", "nodes", "render", "show", "watch"]

def sinkSwitch : Switch := { long := "sink", short := some 's', takesValue := true }

def targetSwitch : Switch := { long := "target", short := some 't', takesValue := true }

def switchesOf : String → List Switch
  | "new" => [{ long := "force", short := some 'f' }]
  | "export" => [targetSwitch, sinkSwitch, { long := "header" }]
  | "render" =>
    [sinkSwitch, { long := "width", short := some 'w', takesValue := true },
      { long := "height", takesValue := true }]
  | "show" =>
    [{ long := "image", short := some 'i', takesValue := true },
      { long := "camera", short := some 'c', takesValue := true }, sinkSwitch,
      { long := "fps", takesValue := true }, { long := "max-runtime", takesValue := true }]
  | "watch" => [{ long := "output", short := some 'o', takesValue := true }, targetSwitch]
  | _ => []

namespace Command

/-- Reads the arguments of a command. -/
def parse (name : String) (args : List String) : Except Refusal Command := do
  let p ← Cli.parse (switchesOf name) true args
  match name, ← p.paths with
  | "new", [file] => return new file (p.isGiven "force")
  | "export", file :: output =>
    if 1 < output.length then throw .usage
    return .export file output.head? (p.value? "target") (← p.int? "sink") (p.isGiven "header")
  | "nodes", [] => return nodes
  | "render", [file, image, output] =>
    return render file image output (← p.int? "sink") (← p.int? "width") (← p.int? "height")
  | "show", [file] =>
    return .show file (← p.path? "image") (← p.int? "camera") (← p.int? "sink") (← p.int? "fps")
      (← p.number? "max-runtime")
  | "watch", [file] => return watch file (← p.path? "output") (p.value? "target")
  | _, _ => throw .usage

/-- The files that a command reads. -/
def sources : Command → List Path
  | new file _ => [file]
  | .export file .. => [file]
  | nodes => []
  | render file image .. => [file, image]
  | .show file image .. => file :: image.toList
  | watch file .. => [file]

/-- The files that a command writes into a directory that has to be there. -/
def products : Command → List Path
  | .export _ output .. => output.toList
  | render _ _ output .. => [output]
  | watch _ output _ => output.toList
  | _ => []

end Command

/-- The command named in a command line, with its arguments and whether to log more. -/
def splitCommand (args : List String) : Except Refusal (Bool × String × List String) := do
  let p ← parse [{ long := "verbose", short := some 'v' }] false args
  match p.others with
  | name :: rest =>
    if commandNames.contains name then return (p.isGiven "verbose", name, rest) else throw .usage
  | [] => throw .usage

/-- The command of a command line. -/
def readLine (args : List String) : Except Refusal Command := do
  let (_, name, rest) ← splitCommand args
  Command.parse name rest

end ShaderFlow.Cli
