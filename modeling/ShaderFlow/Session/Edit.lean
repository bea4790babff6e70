import ShaderFlow.Session.Basic

set_option autoImplicit false

/-
An edit that succeeds reports the new document to whoever listens and schedules a pass; moving a
node changes nothing that a pass could see, so it only reports. A refused edit does neither, and
neither does one whose graph has no document to report.
-/

namespace ShaderFlow.Session

variable {ι : Type} [BEq ι] [NodeId ι]

/-- Reports the document of the graph, if anybody listens. -/
def announce (s : Session ι) : Session ι × Except Error Unit :=
  if s.hasListener then
    match s.graph.toDocument with
    | .ok document => ({ s with changes := s.changes ++ [document] }, .ok ())
    | .error e => (s, .error e)
  else (s, .ok ())

/-- Takes over the graph after an edit. -/
def edit {α : Type} (s : Session ι) (edited : Graph ι × Logged α) (regenerate : Bool) :
    Session ι × Except Error α :=
  match { s with graph := edited.1 }.absorb edited.2 with
  | (s, .error e) => (s, .error e)
  | (s, .ok a) =>
    match s.announce with
    | (s, .error e) => (s, .error e)
    | (s, .ok ()) => (if regenerate then s.trigger.1 else s, .ok a)

def addNode (s : Session ι) (kind position data : Json) : Session ι × Except Error (Node ι) :=
  s.edit (s.graph.addNode kind position data none) true

def removeNode (s : Session ι) (id : ι) : Session ι × Except Error (Node ι) :=
  s.edit (s.graph.removeNode id) true

def cloneNode (s : Session ι) (id : ι) : Session ι × Except Error (Node ι) :=
  s.edit (s.graph.cloneNode id Graph.cloneOffset) true

def moveNode (s : Session ι) (id : ι) (position : Json) : Session ι × Except Error Unit :=
  s.edit (s.graph.after (do return (← s.graph.moveNode id position, ()))) false

def connect (s : Session ι) (d : Declaration ι) : Session ι × Except Error (Link ι) :=
  s.edit (s.graph.connect d) true

def disconnect (s : Session ι) (d : Declaration ι) : Session ι × Except Error Unit :=
  s.edit (s.graph.after (do return (← s.graph.disconnect d, ()))) true

/-- Replaces the graph by the one a document describes. -/
def loadDocument (s : Session ι) (document : Json) : Session ι × Except Error Unit :=
  s.edit (s.graph.after (do return (← s.graph.replace document, ()))) true

/-- Changes a node's data unseen: nothing is reported. -/
def setData (s : Session ι) (id : ι) (key value : Json) : Session ι × Except Error Unit :=
  match s.graph.setData id key value with
  | .ok g => ({ s with graph := g }, .ok ())
  | .error e => (s, .error e)

end ShaderFlow.Session
