import ShaderFlow.Evaluation.Order
import ShaderFlow.Program.Basic

set_option autoImplicit false

namespace ShaderFlow

/-- An evaluation under way: the nodes still to run and the outputs of those that ran. -/
structure Evaluation (ι : Type) where
  graph : Graph ι
  sink : ι
  /-- All nodes that take part. -/
  live : List ι
  pending : List ι
  outputs : List (ι × Outputs) := []

variable {ι : Type} [BEq ι] [NodeId ι]

namespace Evaluation

def start (g : Graph ι) (sink : ι) : Except Error (Evaluation ι) := do
  let order ← g.order (some sink)
  return { graph := g, sink, live := order, pending := order }

/-- How many links into live nodes read an output. -/
def fanOut (e : Evaluation ι) (id : ι) (output : String) : Nat :=
  e.graph.links.countP fun l => l.source == id && l.output == output && e.live.contains l.target

/-- The fragment that arrives over a link. -/
def arriving (e : Evaluation ι) (l : Link ι) : Except Error Fragment :=
  match ((e.outputs.lookup l.source).getD []).lookup l.output with
  | some f => .ok f
  | none => .error (.noOutput (NodeId.toJson l.source) l.output)

/-- The fragments on the inputs of a node. -/
def inputsFor (e : Evaluation ι) (id : ι) (k : Kind) : Except Error Inputs := do
  let incoming := e.graph.inputsOf id
  k.inputs.mapM fun s => do
    return (s.key, ← ((incoming.lookup s.key).getD []).mapM e.arriving)

/-- Changes the fragment on an output, if there is one. -/
def updateOutput (produced : Outputs) (key : String) (f : Fragment → Fragment) : Outputs :=
  produced.map fun (k, fragment) => (k, if k == key then f fragment else fragment)

/-- Names the outputs that several links read, so that each is declared once. -/
def bindShared (e : Evaluation ι) (id : ι) (k : Kind) (produced : Outputs) : Outputs :=
  k.outputs.foldl (fun acc s =>
    if e.fanOut id s.key > 1 then
      let name := s!"out_{(NodeId.toJson id).bare}_{s.key}"
      updateOutput acc s.key (·.bind name s.type.shaderType)
    else acc) produced

/-- Runs the worker of one node. -/
def runNode (e : Evaluation ι) (id : ι) : Logged (Evaluation ι) := do
  let n ← e.graph.node id
  let k ← e.graph.kindOf n
  let inputs ← e.inputsFor id k
  let produced ← k.worker ⟨n.label, e.outputs.length⟩ (.obj n.data) inputs
  (NodeId.toJson id).checkWritable
  Logged.tell (.evaluated (NodeId.toJson id) n.kind)
  return { e with outputs := e.outputs ++ [(id, e.bindShared id k produced)] }

/-- The finished fragment of the sink. -/
def finish (e : Evaluation ι) : Except Error Fragment :=
  match ((e.outputs.lookup e.sink).getD []).lookup Kind.resultKey with
  | some f => .ok f
  | none => .error (.noShader (NodeId.toJson e.sink))

/-- What one step leads to. -/
inductive Progress (ι : Type) where
  | running (e : Evaluation ι)
  | finished (f : Fragment)

/-- Runs the next node, or ends. A cancelled evaluation runs no further node. -/
def step (e : Evaluation ι) (cancelled : Bool) : Logged (Progress ι) :=
  match e.pending with
  | [] => return .finished (← e.finish)
  | id :: rest => do
    if cancelled then throw .passCancelled
    let next ← e.runNode id
    return .running { next with pending := rest }

/-- Runs a list of nodes in turn. -/
def runNodes (e : Evaluation ι) (cancelled : Bool) : List ι → Logged (Evaluation ι)
  | [] => pure e
  | id :: rest => do
    if cancelled then throw .passCancelled
    let next ← e.runNode id
    next.runNodes cancelled rest

end Evaluation

namespace Graph

/-- The finished fragment for a sink. -/
def build (g : Graph ι) (selector : Option Json) (cancelled : Bool) : Logged Fragment := do
  let sink ← g.selectSink selector
  let e ← Evaluation.start g sink.id
  let e ← e.runNodes cancelled e.pending
  e.finish

/-- The shader source for a sink. -/
def evaluate (g : Graph ι) (target : Target) (selector : Option Json) (cancelled : Bool) :
    Logged String := do
  let fragment ← g.build selector cancelled
  fragment.generate target

end Graph

end ShaderFlow
