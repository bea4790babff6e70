import ShaderFlow.Json.Display

set_option autoImplicit false

namespace ShaderFlow

/-- Directed edge from an output socket to an input socket, between nodes named by `ι`. -/
structure Link (ι : Type) where
  source : ι
  output : String
  target : ι
  input : String
  deriving DecidableEq, Inhabited

/-- A link as an edit or a document declares it; sockets may be named by any value. -/
structure Declaration (ι : Type) where
  source : ι
  output : Json
  target : ι
  input : Json
  deriving Inhabited

namespace Link

variable {ι : Type}

/-- Whether two links join the same sockets of the same nodes. -/
def same [BEq ι] (l m : Link ι) : Bool :=
  l.source == m.source && l.output == m.output && l.target == m.target && l.input == m.input

end Link

namespace Declaration

variable {ι κ : Type}

def ofLink (l : Link ι) : Declaration ι := ⟨l.source, .str l.output, l.target, .str l.input⟩

/-- The declaration between the same nodes under other names. -/
def map (f : ι → κ) (d : Declaration ι) : Declaration κ :=
  ⟨f d.source, d.output, f d.target, d.input⟩

/-- The short form `1.color -> 2.color`. -/
def text (d : Declaration Json) : String :=
  s!"{d.source.bare}.{d.output.bare} -> {d.target.bare}.{d.input.bare}"

def display (d : Declaration Json) : String :=
  s!"Connection(output_node={d.source.display}, output={d.output.display}, " ++
    s!"input_node={d.target.display}, input={d.input.display})"

def alike [BEq ι] (a b : Declaration ι) : Bool :=
  a.source == b.source && a.output.alike b.output && a.target == b.target && a.input.alike b.input

def declares [BEq ι] (d : Declaration ι) (l : Link ι) : Bool := d.alike (.ofLink l)

end Declaration

end ShaderFlow
