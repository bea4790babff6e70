import ShaderFlow.Json.Printer
import ShaderFlow.Kind.Registry
import ShaderFlow.Term.Interchange

set_option autoImplicit false

namespace ShaderFlow

open Json (asText field)

namespace Socket

def ofJson (v : Json) : Except Error Socket := do
  let (key, type) ← v.pair
  let key ← asText key
  match type with
  | .str s =>
    match SocketType.ofName? s with
    | some t => return ⟨key, key, t⟩
    | none => throw (.misuse .value "no socket type")
  | _ => throw (.misuse .value "no socket type")

def toJson (s : Socket) : Json := Json.texts [s.key, s.label, s.type.name, s.type.shaderType]

end Socket

namespace Kind

/-- The count from which a node numbers its NaNs, so that those of different nodes are apart. -/
def numbering (seat : Seat) : Nat := seat.turn * Nat.pow 2 30

/-- The fragments that a value lists by their outputs. -/
def readOutputs (v : Json) : Term.ReadM Outputs := do
  (← v.asMembers).mapM fun (key, f) => return (key, ← Fragment.read f)

/-- A kind whose nodes produce the same fragments whatever their data and inputs are. Every node
reads them anew. -/
def fixed (name : String) (inputs outputs : List Socket) (isSink : Bool) (produced : Json) :
    Kind :=
  { name, family := "Custom", inputs, outputs, isSink
    worker := fun seat _ _ => return (← (readOutputs produced).run (numbering seat)).1 }

def ofJson (v : Json) : Except Error Kind := do
  let name ← asText (field v "name")
  let inputs ← (field v "inputs").listOf Socket.ofJson
  let outputs ← (field v "outputs").listOf Socket.ofJson
  return fixed name inputs outputs ((field v "sink").asFlag false) (field v "produces")

end Kind

namespace Registry

/-- The registry of a list of builtin names and kinds, each read and registered in turn; null stands
for all builtin kinds. -/
def ofJson (tag : Nat) : Json → Except Error Registry
  | .null => .ok { builtin with tag }
  | v => do
    (← v.asList).foldlM (fun r item => do
      r.register (← match item with
        | .str _ => builtin.get item
        | item => Kind.ofJson item)) { tag }

end Registry

end ShaderFlow
