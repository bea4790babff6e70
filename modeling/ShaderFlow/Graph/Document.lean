import ShaderFlow.Graph.Edit

set_option autoImplicit false

/-
The saved form of a graph. A document lists its nodes by id, each with its data, its position and
the links on its sockets, so that every link stands at both ends. Loading takes the links from the
inputs and checks those at the outputs against them.
-/

namespace ShaderFlow

namespace Document

def idHead : String := "shadergraph@"

def currentId : String := idHead ++ "0.1.0"

end Document

namespace Graph

open Document

variable {ι : Type} [BEq ι] [NodeId ι]

def linkEntry (node : ι) (side socket : String) : Json :=
  .obj [("node", NodeId.toJson node), (side, .str socket), ("data", .obj [])]

def socketEntries (sockets : List Socket) (entries : String → List Json) : Json :=
  .obj (Members.merge [] (sockets.map fun s =>
    (s.key, .obj [("connections", .arr (entries s.key))])))

def nodeEntry (g : Graph ι) (n : Node ι) (k : Kind) : Json :=
  let incoming := g.inputsOf n.id
  let outgoing := g.outputsOf n.id
  .obj [("id", NodeId.toJson n.id), ("name", .str n.kind), ("data", .obj n.data),
    ("inputs", socketEntries k.inputs fun key =>
      ((incoming.lookup key).getD []).map fun l => linkEntry l.source "output" l.output),
    ("outputs", socketEntries k.outputs fun key =>
      ((outgoing.lookup key).getD []).map fun l => linkEntry l.target "input" l.input),
    ("position", n.position.toJson)]

/-- The saved form of a graph. -/
def toDocument (g : Graph ι) : Except Error Json := do
  let entries ← (← g.sortedNodes).mapM fun n => do
    let k ← g.kindOf n
    (NodeId.toJson n.id).checkWritable
    return (n.label, g.nodeEntry n k)
  return .obj [("id", .str currentId), ("nodes", .obj entries)]

/-- A member that may be left out. -/
def memberOr (entry : Json) (key : String) (other : Json) : Json := (entry.get? key).getD other

/-- Adds the node of one entry. -/
def loadNode (g : Graph ι) (key : String) (entry : Json) : Logged (Graph ι) := do
  let id ← (← (entry.member "id" : Except Error Json)).toInteger
  let keyId ← (Json.str key).toInteger
  if keyId ≠ id then
    (Json.int id).checkWritable
    throw (.keyMismatch key id)
  match memberOr entry "data" (.obj []) with
  | .obj data =>
    let kind ← entry.member "name"
    let position := memberOr entry "position" (.arr [.int 0, .int 0])
    let (g, added) := g.addNode kind position (.obj data) (some (NodeId.ofInt id))
    let _ ← added
    return g
  | _ => throw (.nodeData id)

/-- The node and the socket's label that a link of an entry leads to. -/
def readLink (link : Json) (side : String) : Except Error (Int × Json) := do
  let node ← (← link.member "node").toInteger
  return (node, ← link.member side)

/-- Adds the links into one input. -/
def loadInput (g : Graph ι) (id : Int) (input : String) (socket : Json) : Logged (Graph ι) := do
  let links ← (← (socket.member "connections" : Except Error Json)).items
  links.foldlM (fun g link => do
    let (source, output) ← readLink link "output"
    let (g, linked) := g.connect ⟨NodeId.ofInt source, output, NodeId.ofInt id, .str input⟩
    let _ ← linked
    return g) g

/-- Puts a declared link behind the others, unless it is there already. -/
def addDeclaration (known : List (Declaration ι)) (d : Declaration ι) :
    Except Error (List (Declaration ι)) := do
  discard d.input.asLabel
  return if known.any (·.alike d) then known else known ++ [d]

/-- The links declared at one output. -/
def loadOutput (known : List (Declaration ι)) (id : Int) (output : String) (socket : Json) :
    Except Error (List (Declaration ι)) := do
  let links ← (← socket.member "connections").items
  links.foldlM (fun known link => do
    let (target, input) ← readLink link "input"
    addDeclaration known ⟨NodeId.ofInt id, .str output, NodeId.ofInt target, input⟩) known

/-- Adds the links into the inputs of one entry, and gathers those declared at its outputs. -/
def loadLinks (state : Graph ι × List (Declaration ι)) (entry : Json) :
    Logged (Graph ι × List (Declaration ι)) := do
  let id ← (← (entry.member "id" : Except Error Json)).toInteger
  let inputs ← (memberOr entry "inputs" (.obj [])).membersOf
  let g ← inputs.foldlM (fun g (key, socket) => g.loadInput id key socket) state.1
  let outputs ← (memberOr entry "outputs" (.obj [])).membersOf
  let known ← outputs.foldlM (fun known (key, socket) => loadOutput known id key socket) state.2
  return (g, known)

/-- The entries of a document's nodes. -/
def documentNodes (document : Json) : Except Error Members := do
  match document with
  | .obj members =>
    let id := (Members.get? members "id").getD .null
    match id with
    | .str s => if !s.startsWith idHead then throw (.unsupportedId id)
    | _ => throw (.unsupportedId id)
    match Members.get? members "nodes" with
    | some (.obj entries) => return entries
    | _ => throw .noNodes
  | _ => throw .notObject

/-- Loads a document into a graph without nodes. -/
def load (g : Graph ι) (document : Json) : Logged (Graph ι) := do
  let entries ← documentNodes document
  let g ← entries.foldlM (fun g (key, entry) => g.loadNode key entry) g
  let (g, declared) ← entries.foldlM (fun state (_, entry) => loadLinks state entry) (g, [])
  let missing := (declared.filter fun d => !g.links.any d.declares).map (·.map NodeId.toJson)
  if missing.isEmpty then return g
  else
    (missing.forM Declaration.checkWritable : Except Error Unit)
    throw (.unmatchedOutputs missing)

/-- The graph a document describes, to take the place of another one over the same registry.
A fault of the document makes it malformed. -/
def replace (g : Graph ι) (document : Json) : Logged (Graph ι) :=
  tryCatch (load { registry := g.registry, readings := g.readings } document) fun e =>
    throw (if e.isDocumentFault then .invalidDocument e else e)

/-- The graph a document describes. -/
def ofDocument (registry : Registry) (document : Json) : Logged (Graph ι) :=
  ({ registry } : Graph ι).replace document

end Graph

end ShaderFlow
