set_option autoImplicit false

namespace ShaderFlow

/-- Value carried between sockets. -/
inductive SocketType where
  | color
  | scalar
  deriving DecidableEq, Inhabited

namespace SocketType

def name : SocketType → String
  | color => "color"
  | scalar => "scalar"

def ofName? : String → Option SocketType
  | "color" => some color
  | "scalar" => some scalar
  | _ => none

/-- The type of the shading language that carries the value. -/
def shaderType : SocketType → String
  | color => "vec4"
  | scalar => "float"

end SocketType

/-- Typed connection point of a node kind. -/
structure Socket where
  key : String
  label : String
  type : SocketType
  deriving DecidableEq, Inhabited

namespace Socket

def color (key label : String) : Socket := ⟨key, label, .color⟩

def scalar (key : String) : Socket := ⟨key, key, .scalar⟩

end Socket

end ShaderFlow
