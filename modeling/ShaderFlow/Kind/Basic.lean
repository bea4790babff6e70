import ShaderFlow.Error
import ShaderFlow.Fragment
import ShaderFlow.Json.Coerce
import ShaderFlow.Kind.Socket

set_option autoImplicit false

/-
A kind declares the sockets of its nodes, the data they start with, which data is valid, and the
worker that builds the fragments on the outputs from those on the inputs. Workers give one fragment
per output whatever inputs are connected.
-/

namespace ShaderFlow

/-- The fragments that arrive on each input, in connection order. -/
abbrev Inputs := List (String × List Fragment)

/-- The fragments on each output. -/
abbrev Outputs := List (String × Fragment)

namespace Inputs

/-- The first fragment on an input. -/
def first? (inputs : Inputs) (key : String) : Option Fragment :=
  (inputs.lookup key).bind List.head?

/-- The first fragment on an input, or a value in place of it. -/
def firstOr (inputs : Inputs) (key : String) (value : Term) : Fragment :=
  (first? inputs key).getD (.ofValue value)

end Inputs

/-- Where a worker runs. -/
structure Seat where
  /-- The id of the node, as names spell it. -/
  label : String
  /-- How many nodes ran before. -/
  turn : Nat := 0
  deriving DecidableEq, Inhabited

structure Kind where
  /-- The identifier that documents store. -/
  name : String
  /-- The short form of the name that listings show beside it. -/
  family : String
  inputs : List Socket := []
  outputs : List Socket := []
  /-- Whether a node of the kind finishes a shader. -/
  isSink : Bool := false
  defaultData : Members := []
  validate : Json → Except Error Unit := fun _ => .ok ()
  worker : Seat → Json → Inputs → Except Error Outputs

namespace Kind

/-- The output under which a sink gives the finished shader. -/
def resultKey : String := "result"

def input? (k : Kind) (key : String) : Option Socket := k.inputs.find? (·.key == key)

def output? (k : Kind) (key : String) : Option Socket := k.outputs.find? (·.key == key)

def display (k : Kind) : String := s!"<{k.family} {Text.quoted k.name}>"

end Kind

/-- The member of a node's data, or else of its defaults. -/
def dataValue (data : Json) (defaults : Members) (key : String) : Except Error Json := do
  if ← data.has key then data.member key else return (Members.get? defaults key).getD .null

end ShaderFlow
