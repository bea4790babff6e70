import ShaderFlow.Files
import ShaderFlow.Graph.Document
import ShaderFlow.Json.Parser
import ShaderFlow.Json.Printer
import ShaderFlow.Text.Utf8

set_option autoImplicit false

namespace ShaderFlow.Store

/-- The lines of a text end in one character, whatever they ended in. -/
def joinLines : List Char → List Char
  | '\r' :: '\n' :: rest => '\n' :: joinLines rest
  | '\r' :: rest => '\n' :: joinLines rest
  | c :: rest => c :: joinLines rest
  | [] => []

/-- The value that a text is. An integer beyond all limits is a failure of its own. -/
def parse (text : List Char) : Except Error Json :=
  match Json.parse text with
  | .ok v => .ok v
  | .error (.flaw kind remaining) => .error (.notDocument (kind.locate text remaining))
  | .error (.integerTooLong digits) => .error (.misuse .value (Json.tooLongMessage digits))

/-- The value that the bytes of a file hold, or why they hold none. -/
def readValue (bytes : List UInt8) : Except Error (Except String Json) :=
  match Text.utf8Decode bytes with
  | .error e => .ok (.error e.message)
  | .ok chars =>
    match parse (joinLines chars) with
    | .ok v => .ok (.ok v)
    | .error (.notDocument reason) => .ok (.error reason)
    | .error e => .error e

/-- The document in a file, if there is one. -/
def load (fs : Files) (p : Path) : Logged (Option Json) := do
  if !(← fs.contains p) then
    Logged.tell (.stateMissing p.text)
    return none
  match fs.read p with
  | .error e =>
    Logged.tell (.stateUnreadable p.text e.message)
    return none
  | .ok bytes =>
    match ← readValue bytes with
    | .error reason =>
      Logged.tell (.stateUnreadable p.text reason)
      return none
    | .ok (.obj members) => return some (.obj members)
    | .ok _ =>
      Logged.tell (.stateNotObject p.text)
      return none

/-- The text of a saved document. -/
def fileText (document : Json) : String := document.lines ++ "\n"

/-- Saves a document, making the directory for it. A directory that was made stays whatever
follows. -/
def save (fs : Files) (p : Path) (document : Json) : Files × Logged Unit :=
  match fs.makeDirectory p.parent with
  | (fs, .error e) => (fs, throw e)
  | (fs, .ok ()) =>
    let (fs, written) := fs.writeText p (fileText document)
    (fs, do
      written
      Logged.tell (.stateSaved p.text))

/-- The saved graph, or else the starter graph. -/
def loadGraph (fs : Files) (p : Path) (registry : Registry) : Logged (Graph Int) := do
  match ← load fs p with
  | none => Graph.starter registry
  | some document =>
    tryCatch (Graph.ofDocument registry document) fun e => do
      Logged.tell (.stateIgnored p.text e)
      Graph.starter registry

end ShaderFlow.Store
