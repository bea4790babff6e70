import ShaderFlow.Path
import ShaderFlow.Target

set_option autoImplicit false

namespace ShaderFlow.Header

def lines (time : String) (graphFile : Path) (target : Target) : List String :=
  ["// Generated by shadergraph v0.1.0", s!"// Generation time: {time}",
    s!"// Source graph: {graphFile.name}", s!"// Target: {target.name}"]

/-- A text before and after its first line end. -/
def splitLine (code : List Char) : List Char × List Char :=
  (code.takeWhile (· != '\n'), (code.dropWhile (· != '\n')).drop 1)

/-- The source with a header. -/
def add (time : String) (graphFile : Path) (target : Target) (code : String) : String :=
  let header := String.join ((lines time graphFile target).map (· ++ "\n"))
  if code.startsWith "#version" then
    let (version, rest) := splitLine code.toList
    String.ofList version ++ "\n" ++ header ++ String.ofList rest
  else header ++ "\n" ++ code

end ShaderFlow.Header
