import ShaderFlow.Graph.Document
import ShaderFlow.Json.Fields
import ShaderFlow.Json.Printer

set_option autoImplicit false

namespace ShaderFlow

open Json (texts)

variable {ι : Type} [BEq ι] [NodeId ι]

namespace Node

def toJson (n : Node ι) : Json :=
  .obj [("id", NodeId.toJson n.id), ("name", .str n.kind),
    ("position", texts [n.position.x.text, n.position.y.text]),
    ("data", .str (Json.obj n.data).text)]

end Node

namespace Link

/-- The short form of a link. -/
def toJson (l : Link ι) : Json := .str ((Declaration.ofLink l).map NodeId.toJson).text

/-- Links by the socket they are at. -/
def socketsToJson (sockets : List (String × List (Link ι))) : Json :=
  .arr (sockets.map fun (key, links) => .arr [.str key, .arr (links.map toJson)])

end Link

namespace Declaration

/-- Reads source node, output, target node and input. -/
def ofJson (v : Json) : Except Error (Declaration Json) := do
  match ← v.items with
  | [source, output, target, input] => return ⟨source, output, target, input⟩
  | _ => Json.mismatch

end Declaration

namespace Graph

/-- The graph that a value stands for: nothing for an empty one, a word for the starter graph, or a
document. -/
def ofJson (registry : Registry) : Json → Logged (Graph ι)
  | .null => pure { registry }
  | .str "starter" => starter registry
  | v => ofDocument registry v

def documentText (g : Graph ι) : Except Error String := return (← g.toDocument).text

end Graph

end ShaderFlow
