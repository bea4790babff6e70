import ShaderFlow.Graph.NodeId
import ShaderFlow.Kind.Registry
import ShaderFlow.Logged

set_option autoImplicit false

namespace ShaderFlow

structure Position where
  x : Binary64
  y : Binary64
  deriving DecidableEq, Inhabited

namespace Position

def toJson (p : Position) : Json := .arr [.float p.x, .float p.y]

/-- Marks coordinates that are NaN as those of the reading with a number, so that they differ from
those of all other readings. -/
def own (reading : Nat) (p : Position) : Position :=
  ⟨p.x.own (2 * reading), p.y.own (2 * reading + 1)⟩

/-- Reads a pair of numbers, the first one first. -/
def ofJson (reading : Nat) (v : Json) : Except Error Position := do
  let (x, y) ← v.pair
  return ⟨← x.toOwnNumber (2 * reading), ← y.toOwnNumber (2 * reading + 1)⟩

def alike (p q : Position) : Bool := p.x.alike q.x && p.y.alike q.y

end Position

/-- Refuses a declaration with an integer that has too many digits to be written. -/
def Declaration.checkWritable (d : Declaration Json) : Except Error Unit :=
  [d.source, d.output, d.target, d.input].forM Json.checkWritable

/-- A placed instance of a kind. -/
structure Node (ι : Type) where
  id : ι
  kind : String
  position : Position
  data : Members
  deriving Inhabited

/-- Puts the item for a key behind the items it already has. -/
def group {κ α : Type} [BEq κ] : List (κ × List α) → κ → α → List (κ × List α)
  | [], key, a => [(key, [a])]
  | (k, as) :: rest, key, a =>
    if k == key then (k, as ++ [a]) :: rest else (k, as) :: group rest key a

structure Graph (ι : Type) where
  registry : Registry := .builtin
  nodes : List (Node ι) := []
  links : List (Link ι) := []
  /-- How many positions were read so far. -/
  readings : Nat := 0

variable {ι : Type} [BEq ι] [NodeId ι]

namespace Node

def alike (m n : Node ι) : Bool :=
  m.id == n.id && m.kind == n.kind && m.position.alike n.position &&
    (Json.obj m.data).alike (.obj n.data)

/-- The id as names and messages spell it. -/
def label (n : Node ι) : String := (NodeId.toJson n.id).bare

end Node

namespace Graph

def find? (g : Graph ι) (id : ι) : Option (Node ι) := g.nodes.find? (·.id == id)

def contains (g : Graph ι) (id : ι) : Bool := (g.find? id).isSome

def node (g : Graph ι) (id : ι) : Except Error (Node ι) := do
  NodeId.check id
  match g.find? id with
  | some n => return n
  | none => do
    (NodeId.toJson id).checkWritable
    throw (.nodeNotFound (NodeId.toJson id))

def ids (g : Graph ι) : List ι := g.nodes.map (·.id)

/-- The nodes by ascending id. -/
def sortedNodes (g : Graph ι) : Except Error (List (Node ι)) := NodeId.sortBy (·.id) g.nodes

def kindOf (g : Graph ι) (n : Node ι) : Except Error Kind := g.registry.get (.str n.kind)

/-- The links into each input of a node. -/
def inputsOf (g : Graph ι) (id : ι) : List (String × List (Link ι)) :=
  (g.links.filter (·.target == id)).foldl (fun acc l => group acc l.input l) []

/-- The links out of each output of a node. -/
def outputsOf (g : Graph ι) (id : ι) : List (String × List (Link ι)) :=
  (g.links.filter (·.source == id)).foldl (fun acc l => group acc l.output l) []

/-- The nodes that finish a shader, by ascending id. -/
def sinks (g : Graph ι) : Except Error (List (Node ι)) := do
  return (← g.sortedNodes).filter fun n => (g.registry.find? n.kind).any (·.isSink)

def display (g : Graph ι) : String :=
  s!"<Graph {g.nodes.length} nodes, {g.links.length} connections>"

/-- The sources of each linked input, in order. -/
def feeds (g : Graph ι) : List ((ι × String) × List (ι × String)) :=
  g.links.foldl (fun acc l => group acc (l.target, l.input) (l.source, l.output)) []

def sameFeeds (a b : List ((ι × String) × List (ι × String))) : Bool :=
  a.length == b.length && a.all fun (key, sources) => b.lookup key == some sources

/-- Whether two graphs count as one: the same nodes and the same links into each input. -/
def alike (g h : Graph ι) : Bool :=
  g.nodes.length == h.nodes.length &&
    (g.nodes.all fun n => (h.find? n.id).any n.alike) && sameFeeds g.feeds h.feeds

end Graph

end ShaderFlow
