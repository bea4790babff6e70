import ShaderFlow.Graph.Basic
import ShaderFlow.Json.Key

set_option autoImplicit false

/-
Each edit checks everything before it changes the graph, so a refused edit leaves no trace. Only
what is reported after the change can still fail: an id with too many digits to be written makes the
edit fail and leaves the change in place.
-/

namespace ShaderFlow.Graph

variable {ι : Type} [BEq ι] [NodeId ι]

/-- The id after the largest one. -/
def nextId (g : Graph ι) : Except Error ι := do
  match ← NodeId.greatest? g.ids with
  | none => return NodeId.ofInt 1
  | some id => NodeId.next id

/-- The id of a new node: the wanted one if it is free. -/
def newId (g : Graph ι) : Option ι → Except Error ι
  | none => g.nextId
  | some id => do
    NodeId.check id
    if g.contains id then
      (NodeId.toJson id).checkWritable
      throw (.idInUse (NodeId.toJson id))
    else return id

/-- A new node of a kind, with data beside the kind's defaults. -/
def newNode (g : Graph ι) (kind position data : Json) (id : Option ι) : Except Error (Node ι) := do
  let k ← g.registry.get kind
  let data ← Members.update k.defaultData data
  k.validate (.obj data)
  let id ← g.newId id
  return { id, kind := k.name, position := ← Position.ofJson g.readings position, data }

/-- Puts a node behind the others, or in the place of the one with its id. -/
def putNode (g : Graph ι) (n : Node ι) : Graph ι :=
  { g with nodes :=
      if g.contains n.id then g.nodes.map fun m => if m.id == n.id then n else m
      else g.nodes ++ [n] }

/-- Adds a node. Gives the graph then, and the node or why there is none to be told of. -/
def addNode (g : Graph ι) (kind position data : Json) (id : Option ι) :
    Graph ι × Logged (Node ι) :=
  match g.newNode kind position data id with
  | .error e => (g, throw e)
  | .ok n =>
    ({ g.putNode n with readings := g.readings + 1 }, do
      let written := NodeId.toJson n.id
      written.checkWritable
      Logged.tell (.nodeAdded written n.kind)
      return n)

/-- The graph after an edit that leaves it alone when it fails. -/
def after {α : Type} (g : Graph ι) (work : Logged (Graph ι × α)) : Graph ι × Logged α :=
  match work.outcome with
  | .ok (changed, a) => (changed, ⟨work.events, .ok a⟩)
  | .error e => (g, ⟨work.events, .error e⟩)

/-- Removes a node and the links at it. -/
def removeNode (g : Graph ι) (id : ι) : Graph ι × Logged (Node ι) :=
  match g.node id with
  | .error e => (g, throw e)
  | .ok n =>
    ({ g with
      nodes := g.nodes.filter (·.id != id)
      links := g.links.filter fun l => l.source != id && l.target != id }, do
      (NodeId.toJson id).checkWritable
      Logged.tell (.nodeRemoved (NodeId.toJson id) n.kind)
      return n)

/-- Changes the node with an id. -/
def modifyNode (g : Graph ι) (id : ι) (f : Node ι → Node ι) : Graph ι :=
  { g with nodes := g.nodes.map fun n => if n.id == id then f n else n }

/-- Moves a node. The position is read before the node is looked for. -/
def moveNode (g : Graph ι) (id : ι) (position : Json) : Except Error (Graph ι) := do
  let position ← Position.ofJson g.readings position
  let _ ← g.node id
  return { g.modifyNode id ({ · with position }) with readings := g.readings + 1 }

/-- How far a clone stands from its model. -/
def cloneOffset : Json := .arr [.float (.tenths 100), .float (.tenths 100)]

/-- Adds a node of the same kind and data, without links. -/
def cloneNode (g : Graph ι) (id : ι) (offset : Json) : Graph ι × Logged (Node ι) :=
  let placed : Except Error (Node ι × Position) := do
    let n ← g.node id
    let dx ← (← offset.item 0).toSummand
    let dy ← (← offset.item 1).toSummand
    return (n, ⟨n.position.x.add dx, n.position.y.add dy⟩)
  match placed with
  | .error e => (g, throw e)
  | .ok (n, position) =>
    g.addNode (.str n.kind) (position.own g.readings).toJson (.obj n.data) none

/-- The output socket that a value names. -/
def outputSocket (k : Kind) (name : Json) : Except Error Socket :=
  match name with
  | .str s =>
    match k.output? s with
    | some socket => .ok socket
    | none => .error (.noSuchOutput k.name name)
  | _ => .error (.noSuchOutput k.name name)

/-- The input socket that a value names. -/
def inputSocket (k : Kind) (name : Json) : Except Error Socket :=
  match name with
  | .str s =>
    match k.input? s with
    | some socket => .ok socket
    | none => .error (.noSuchInput k.name name)
  | _ => .error (.noSuchInput k.name name)

/-- The declared link, if its sockets are there and of one type. -/
def newLink (g : Graph ι) (d : Declaration ι) : Except Error (Link ι) := do
  let sourceKind ← g.kindOf (← g.node d.source)
  let targetKind ← g.kindOf (← g.node d.target)
  let output ← outputSocket sourceKind d.output
  let input ← inputSocket targetKind d.input
  if output.type = input.type then return ⟨d.source, output.key, d.target, input.key⟩
  else throw (.typeMismatch output.type input.type s!"{sourceKind.name}.{output.key}"
    s!"{targetKind.name}.{input.key}")

/-- Adds a link; one that is there already stays as it is. -/
def connect (g : Graph ι) (d : Declaration ι) : Graph ι × Logged (Link ι) :=
  match g.newLink d with
  | .error e => (g, throw e)
  | .ok l =>
    if g.links.any l.same then (g, pure l)
    else
      ({ g with links := g.links ++ [l] }, do
        let written := (Declaration.ofLink l).map NodeId.toJson
        written.checkWritable
        Logged.tell (.connected written)
        return l)

/-- Removes a link that is there. -/
def disconnect (g : Graph ι) (d : Declaration ι) : Except Error (Graph ι) :=
  if g.links.any d.declares then .ok { g with links := g.links.eraseP d.declares }
  else do
    (d.map NodeId.toJson).checkWritable
    throw (.noLink (d.map NodeId.toJson))

/-- Gives a member of a node's data a value, whatever it is. -/
def setData (g : Graph ι) (id : ι) (key value : Json) : Except Error (Graph ι) := do
  let n ← g.node id
  let key ← Members.nameFor n.data key
  return g.modifyNode id fun n => { n with data := Members.insert n.data key value }

/-- Drops a member of a node's data. -/
def dropData (g : Graph ι) (id : ι) (key : Json) : Except Error (Graph ι) := do
  let n ← g.node id
  let key ← Members.nameFor n.data key
  let _ ← (Json.obj n.data).member key
  return g.modifyNode id fun n => { n with data := Members.erase n.data key }

/-- The graph of a new editor: the video on the canvas. -/
def starter (registry : Registry) : Logged (Graph ι) := do
  let origin : Json := .arr [.float (.tenths 0), .float (.tenths 0)]
  let beside : Json := .arr [.float (.tenths 4000), .float (.tenths 0)]
  let g : Graph ι := { registry }
  let (g, added) := g.addNode (.str "Webcam") origin .null none
  let webcam ← added
  let (g, added) := g.addNode (.str "Canvas") beside .null none
  let canvas ← added
  let (g, linked) := g.connect (.ofLink ⟨webcam.id, "color", canvas.id, "color"⟩)
  let _ ← linked
  return g

end ShaderFlow.Graph
