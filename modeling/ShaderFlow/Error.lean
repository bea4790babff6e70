import ShaderFlow.Graph.Link
import ShaderFlow.Kind.Socket
import ShaderFlow.Number.Basic
import ShaderFlow.Term.Basic

set_option autoImplicit false

/-
Everything that can go wrong, by cause, with the wording of each cause in `Error.message`.
Evaluation errors abort the current pass only; graph errors refuse an edit or a document before it
reaches the graph.
-/

namespace ShaderFlow

/-- How a value is used against its shape. -/
inductive Misuse where
  /-- A value of the wrong kind. -/
  | shape
  /-- A value of the right kind that denotes nothing. -/
  | value
  /-- A text that does not follow its grammar. -/
  | grammar
  /-- A member that is not there. -/
  | member
  /-- An item beyond the end. -/
  | item
  /-- A number out of range. -/
  | range
  /-- An operation the value does not have. -/
  | operation
  deriving DecidableEq, Inhabited

/-- Causes a file cannot be used. -/
inductive FileFault where
  | missing
  | isDirectory
  | notDirectory
  | exists
  /-- A file that ends too early. -/
  | truncated
  | nameTooLong
  /-- A path with a null character. -/
  | nullCharacter
  /-- A path with half of a surrogate pair. -/
  | notText
  deriving DecidableEq, Inhabited

inductive Error where
  -- terms
  | notExpression
  | notStatement
  | notTerm
  | unsupportedVector (name : Json)
  | nonFinite (x : Binary64)
  | unlowered (key : Key)
  -- generation
  | commitCount (found : Nat)
  | selfDependent (name : String)
  | undefinedVariable (name : String)
  | duplicateVariable (name : String)
  | noOutput (node : Json) (output : String)
  | noShader (node : Json)
  -- evaluation
  | cycle (ids : List Json)
  | noSink (selector : Option Json)
  | ambiguousSink (ids : List Json)
  | passCancelled
  -- targets
  | unknownTarget (name : String)
  | exportOnly
  -- node kinds
  | notNumbers (field : String) (count : Nat) (value : Json)
  | outOfRange (field : String)
  | notFinite (field : String) (value : Json)
  | badRadius (value : Json)
  | alreadyRegistered (name : String)
  | unknownKind (name : Json)
  -- graphs
  | idInUse (id : Json)
  | nodeNotFound (id : Json)
  | noSuchOutput (kind : String) (output : Json)
  | noSuchInput (kind : String) (input : Json)
  | typeMismatch (sourceType targetType : SocketType) (source target : String)
  | noLink (wanted : Declaration Json)
  | foreignRegistry
  -- documents
  | notObject
  | unsupportedId (id : Json)
  | noNodes
  | keyMismatch (key : String) (id : Int)
  | nodeData (id : Int)
  | unmatchedOutputs (missing : List (Declaration Json))
  | invalidDocument (cause : Error)
  -- configuration
  | unknownLevel (level : String)
  | badSize (size : List Json)
  | badFps (fps : Number)
  | badCamera (camera : Number)
  | cameraNumeral (given : Json)
  -- rendering
  /-- Samples have no order. -/
  | unclippable
  | frameShape (shape : List Nat)
  | noFrame
  | initFailed
  | windowFailed
  | compileFailed
  | collaboratorFailed
  | unknownImage
  | imageTooLarge
  | unknownExtension (extension : String)
  | alphaRefused (extension : String)
  -- outside
  | file (fault : FileFault) (path : String)
  | unencodable
  /-- A text that is no document. -/
  | notDocument (reason : String)
  | misuse (kind : Misuse) (detail : String)
  deriving Inhabited

namespace Error

def idList (ids : List Json) : String := (Json.arr ids).display

/-- Texts between parentheses; one alone has a comma behind it. -/
def tupleText : List String → String
  | [s] => s!"({s},)"
  | ss => "(" ++ ", ".intercalate ss ++ ")"

def fileMessage (fault : FileFault) (path : String) : String :=
  let reason :=
    match fault with
    | .missing => "[Errno 2] No such file or directory"
    | .isDirectory => "[Errno 21] Is a directory"
    | .notDirectory => "[Errno 20] Not a directory"
    | .exists => "[Errno 17] File exists"
    | .truncated => "File is truncated"
    | .nameTooLong => "[Errno 36] File name too long"
    | .nullCharacter => "embedded null byte"
    | .notText => "surrogates not allowed"
  reason ++ ": " ++ Text.quoted path

def message : Error → String
  | notExpression => "Not an expression"
  | notStatement => "Not a statement"
  | notTerm => "Not a term"
  | unsupportedVector name => s!"Unsupported vector type: {name.bare}"
  | nonFinite x => s!"No literal for non-finite value {x.text}"
  | unlowered key => s!"Variable generator {key.display} reached the emitter unlowered"
  | commitCount found => s!"Expected exactly one commit statement, found {found}"
  | selfDependent name => s!"Variable '{name}' depends on itself"
  | undefinedVariable name => s!"Variable '{name}' was referenced without being defined"
  | duplicateVariable name => s!"Variable '{name}' is defined twice with different values"
  | noOutput node output => s!"Node {node.bare} produced no '{output}' output"
  | noShader node => s!"Output node {node.bare} produced no shader"
  | cycle ids => s!"Graph contains a cycle through nodes {idList ids}"
  | noSink none => "Graph has no output node"
  | noSink (some id) => s!"Node {id.bare} is not an output node"
  | ambiguousSink ids =>
    s!"Graph has {ids.length} output nodes {idList ids}; select one explicitly"
  | passCancelled => "Pass was cancelled by a newer pass"
  | unknownTarget name =>
    s!"Unknown target: {Text.quoted name} (expected one of webgl, opengl33)"
  | exportOnly =>
    "WebGLTarget is export-only and cannot be rendered locally. " ++
      "Use the OpenGL 3.3 target for local rendering."
  | notNumbers field count value =>
    s!"'{field}' must be a list of {count} numbers, got {value.display}"
  | outOfRange field => s!"'{field}' is out of range"
  | notFinite field value => s!"'{field}' must be finite, got {value.display}"
  | badRadius value => s!"'radius' must be an integer in [0, 4], got {value.display}"
  | alreadyRegistered name => s!"Component {Text.quoted name} is already registered"
  | unknownKind name => s!"Unknown component: {name.bare}"
  | idInUse id => s!"Node id {id.bare} is already in use"
  | nodeNotFound id => s!"Node {id.bare} not found"
  | noSuchOutput kind output => s!"{kind} has no output '{output.bare}'"
  | noSuchInput kind input => s!"{kind} has no input '{input.bare}'"
  | typeMismatch sourceType targetType source target =>
    s!"Cannot connect {sourceType.name} output {source} to {targetType.name} input {target}"
  | noLink wanted => s!"No connection {wanted.text}"
  | foreignRegistry => "registry must be the registry of the given graph"
  | notObject => "Graph document must be an object"
  | unsupportedId id => s!"Unsupported document id: {id.display}"
  | noNodes => "Graph document has no 'nodes' object"
  | keyMismatch key id => s!"Node key {Text.quoted key} does not match id {id}"
  | nodeData id => s!"Node {id} data must be an object"
  | unmatchedOutputs missing =>
    let texts := (missing.map Declaration.display).mergeSort fun a b => !decide (b < a)
    "Output connections without matching inputs: [" ++ ", ".intercalate texts ++ "]"
  | invalidDocument cause => s!"Invalid graph document: {cause.message}"
  | unknownLevel level => s!"Unknown log level: {level}"
  | badSize size => s!"Render size must be positive, got {tupleText (Json.displayItems size)}"
  | badFps fps => s!"FPS must not be negative, got {fps.text}"
  | badCamera camera => s!"Camera index must not be negative, got {camera.text}"
  | cameraNumeral given => s!"SHADERGRAPH_CAMERA must be an integer, got {given.display}"
  | unclippable => "samples of this type have no order"
  | frameShape shape => s!"Unsupported frame shape: {tupleText (shape.map toString)}"
  | noFrame => ""
  | initFailed => "Failed to initialize GLFW"
  | windowFailed => "Failed to create GLFW window"
  | compileFailed => "compile error"
  | collaboratorFailed => "collaborator failed"
  | unknownImage => "cannot identify image file"
  | imageTooLarge => "Image size exceeds limit"
  | unknownExtension extension => s!"unknown file extension: {extension}"
  | alphaRefused extension => s!"cannot write alpha as {extension}"
  | file fault path => fileMessage fault path
  | unencodable => "surrogates not allowed"
  | notDocument reason => reason
  | misuse _ detail => detail

/-- Failures of code generation. -/
def isGeneration : Error → Bool
  | commitCount _ | selfDependent _ | undefinedVariable _ | duplicateVariable _
  | noOutput .. | noShader _ => true
  | _ => false

/-- Failures of a pass. -/
def isEvaluation : Error → Bool
  | cycle _ | noSink _ | ambiguousSink _ | passCancelled => true
  | e => e.isGeneration

/-- Refusals of a document as a whole. -/
def isMalformed : Error → Bool
  | notObject | unsupportedId _ | noNodes | keyMismatch .. | nodeData _ | unmatchedOutputs _
  | invalidDocument _ => true
  | _ => false

/-- Refusals of a value for what it is, its form being right. -/
def isValue : Error → Bool
  | unsupportedVector _ | nonFinite _ | unlowered _ | unknownTarget _ | notNumbers .. | outOfRange _
  | notFinite .. | badRadius _ | alreadyRegistered _ | idInUse _ | foreignRegistry | unknownLevel _
  | badSize _ | badFps _ | badCamera _ | cameraNumeral _ | frameShape _ | unknownExtension _
  | unencodable | notDocument _ | misuse .value _ | file .nullCharacter _ | file .notText _ => true
  | _ => false

/-- What a faulty document leads to: values that are missing, of the wrong form or out of range, and
refusals of the nodes and links it lists. -/
def isDocumentFault : Error → Bool
  | unknownKind _ | nodeNotFound _ | noSuchOutput .. | noSuchInput .. | typeMismatch .. | noLink _
  | notExpression | notStatement | notTerm | unclippable
  | misuse .shape _ | misuse .member _ | misuse .range _ | misuse .operation _ => true
  | e => e.isValue

/-- Refusals of an edit or a document. -/
def isGraph : Error → Bool
  | unknownKind _ | nodeNotFound _ | noSuchOutput .. | noSuchInput .. | typeMismatch ..
  | noLink _ => true
  | e => e.isMalformed

end Error

end ShaderFlow
