import ShaderFlow.Json.Coerce
import ShaderFlow.Text.Class
import ShaderFlow.Text.Upper

set_option autoImplicit false

namespace ShaderFlow

/-- The interpolated coordinate within the picture. -/
def coordinateName : String := "vTexCoord"

/-- The size of the picture. -/
def resolutionName : String := "resolution"

/-- The current video frame. -/
def videoName : String := "videoTexture"

inductive Target where
  | webgl
  | opengl33
  deriving DecidableEq, Inhabited

/-- What drawing with a target needs. -/
structure Runtime where
  major : Nat
  minor : Nat
  profile : String
  vertexShader : String

namespace Target

def name : Target → String
  | webgl => "WEBGL"
  | opengl33 => "OPENGL33"

/-- Reads a name in any case, with blanks around it. -/
def ofName (s : String) : Except Error Target :=
  match Text.upper (Text.trim s) with
  | "WEBGL" => .ok webgl
  | "OPENGL33" => .ok opengl33
  | _ => .error (.unknownTarget s)

/-- Reads the name of a target, which has to be a text. -/
def ofJson : Json → Except Error Target
  | .str s => ofName s
  | _ => .error (.misuse .operation "not a text")

def version : String := "330 core"

def uniforms : List String :=
  [s!"uniform vec2 {resolutionName};", s!"uniform sampler2D {videoName};"]

/-- The lines before the program. -/
def preamble : Target → List String
  | webgl =>
    ["precision mediump float;", "", s!"varying vec2 {coordinateName};", ""] ++ uniforms
  | opengl33 =>
    [s!"#version {version}", "", s!"in vec2 {coordinateName};", "out vec4 fragColor;", ""] ++
      uniforms

/-- The variable that takes the final color. -/
def outputName : Target → String
  | webgl => "gl_FragColor"
  | opengl33 => "fragColor"

/-- The target's spelling of a builtin function. -/
def functionName : Target → String → String
  | opengl33, "texture2D" => "texture"
  | _, name => name

/-- The target's spelling of what is called. A name in a table of spellings cannot be a list or an
object. -/
def functionOf (t : Target) : Json → Except Error Json
  | .str name => .ok (.str (t.functionName name))
  | v =>
    match t with
    | webgl => .ok v
    | opengl33 => v.asLabel

def vertexShader : String :=
  "\n".intercalate
    [s!"#version {version}", "in vec2 in_position;", s!"out vec2 {coordinateName};",
      "void main() \x7b", s!"    {coordinateName} = (in_position + 1.0) * 0.5;",
      "    gl_Position = vec4(in_position, 0.0, 1.0);", "\x7d", ""]

def runtime : Target → Except Error Runtime
  | webgl => .error .exportOnly
  | opengl33 => .ok ⟨3, 3, "core", vertexShader⟩

end Target

end ShaderFlow
