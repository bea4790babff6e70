import ShaderFlow.Kind.Combine
import ShaderFlow.Kind.Source

set_option autoImplicit false

namespace ShaderFlow

/-- Kinds in the order of their registration. Two registries are the same one only if their tags
agree. -/
structure Registry where
  tag : Nat := 0
  kinds : List Kind := []

namespace Registry

def names (r : Registry) : List String := r.kinds.map (·.name)

def find? (r : Registry) (name : String) : Option Kind := r.kinds.find? (·.name == name)

def contains (r : Registry) (name : String) : Bool := (r.find? name).isSome

/-- The kind that a value names. -/
def get (r : Registry) (v : Json) : Except Error Kind := do
  match ← v.asLabel with
  | .str name =>
    match r.find? name with
    | some k => return k
    | none => throw (.unknownKind v)
  | _ => throw (.unknownKind v)

def register (r : Registry) (k : Kind) : Except Error Registry :=
  if r.contains k.name then .error (.alreadyRegistered k.name)
  else .ok { r with kinds := r.kinds ++ [k] }

def builtinKinds : List Kind :=
  [Kind.canvas, Kind.webcam, Kind.coolColor, Kind.blendColors, Kind.constantColor,
    Kind.constantNumber, Kind.boxBlur, Kind.multiplyColors, Kind.mixColors, Kind.invertColor,
    Kind.splitColor, Kind.joinColor]

/-- The registry of all builtin kinds. -/
def builtin : Registry := { kinds := builtinKinds }

end Registry

end ShaderFlow
