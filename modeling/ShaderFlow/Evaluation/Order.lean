import ShaderFlow.Graph.Basic

set_option autoImplicit false

namespace ShaderFlow

variable {ι : Type} [BEq ι] [NodeId ι]

/-- An order under way: the ids taken so far, those left, and the links out of those left. -/
structure Sequencing (ι : Type) where
  taken : List ι := []
  remaining : List ι
  links : List (Link ι)

namespace Sequencing

/-- The ids left that no link enters. -/
def ready (o : Sequencing ι) : List ι :=
  o.remaining.filter fun id => !o.links.any (·.target == id)

/-- An id in the form that the last of some links gives it. -/
def written (links : List (Link ι)) (id : ι) : ι :=
  links.foldl (fun id l => if l.target == id then l.target else id) id

/-- Takes an id, and with it the links out of it. -/
def take (o : Sequencing ι) (id : ι) : Sequencing ι where
  taken := o.taken ++ [id]
  remaining := (o.remaining.filter (· != id)).map (written (o.links.filter (·.source == id)))
  links := o.links.filter (·.source != id)

/-- Takes the smallest id that is ready, if there is one. -/
def step (o : Sequencing ι) : Except Error (Sequencing ι) := do
  match ← NodeId.least? o.ready with
  | some id => return o.take id
  | none => return o

end Sequencing

namespace Graph

/-- The order of all nodes. -/
def fullOrder (g : Graph ι) : Except Error (List ι) := do
  let start : Sequencing ι := { remaining := g.ids, links := g.links }
  let o ← g.nodes.foldlM (fun o _ => o.step) start
  if o.remaining.isEmpty then return o.taken
  else
    let left ← NodeId.sortBy id (g.ids.filter fun id => !o.taken.contains id)
    let ids := left.map NodeId.toJson
    ids.forM Json.checkWritable
    throw (.cycle ids)

/-- The nodes that feed a node directly. -/
def feeding (links : List (Link ι)) (id : ι) : List ι :=
  ((links.filter (·.target == id)).map (·.source)).eraseDups

end Graph

/-- A walk against the direction of the links: the ids found, and those still to go on from. -/
structure Walk (ι : Type) where
  found : List ι := []
  pending : List ι

namespace Walk

/-- Goes on from the id that was found last. -/
def step (links : List (Link ι)) (w : Walk ι) : Walk ι :=
  match w.pending with
  | [] => w
  | id :: rest =>
    let fresh := (Graph.feeding links id).filter fun source => !w.found.contains source
    { found := w.found ++ fresh, pending := fresh.reverse ++ rest }

end Walk

namespace Graph

/-- Every other node with a path into a node, by ascending id. A walk has as many steps as it finds
ids, and no more than there are links. -/
def ancestors (g : Graph ι) (id : ι) : Except Error (List ι) := do
  NodeId.check id
  let w := g.links.foldl (fun w _ => w.step g.links) (Walk.step g.links { pending := [id] })
  NodeId.sortBy (fun id => id) (w.found.filter (· != id))

/-- The order of the nodes that a sink needs, or of all nodes. -/
def order (g : Graph ι) : Option ι → Except Error (List ι)
  | none => g.fullOrder
  | some sink => do
    let all ← g.fullOrder
    let live := sink :: (← g.ancestors sink)
    return all.filter live.contains

/-- The sink to evaluate for: the one that a value names, or the only one. -/
def selectSink (g : Graph ι) (selector : Option Json) : Except Error (Node ι) := do
  let sinks ← g.sinks
  match selector with
  | some v =>
    match sinks.find? fun n => (NodeId.toJson n.id).alike v with
    | some n => return n
    | none =>
      v.checkWritable
      throw (.noSink (some v))
  | none =>
    match sinks with
    | [] => throw (.noSink none)
    | [n] => return n
    | sinks =>
      let ids := sinks.map fun n => NodeId.toJson n.id
      ids.forM Json.checkWritable
      throw (.ambiguousSink ids)

end Graph

end ShaderFlow
