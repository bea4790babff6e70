set_option autoImplicit false

/-
What a command prints goes to whoever reads its output, not to a terminal: control sequences, which
set colors and the like, are left out. A control sequence is an escape, a bracket, parameters and a
letter; whatever else begins with an escape stays.
-/

namespace ShaderFlow.Cli

def escape : Char := '\x1b'

/-- The characters of a control sequence between its bracket and its letter. -/
def isParameter (c : Char) : Bool := c == ';' || c == '?' || c.isDigit

/-- The characters without control sequences. `held` is what may turn out to be one. -/
def dropSequences : List Char → List Char → List Char
  | held, [] => held
  | [], c :: rest => if c == escape then dropSequences [c] rest else c :: dropSequences [] rest
  | [e], c :: rest =>
    if c == '[' then dropSequences [e, c] rest
    else if c == escape then e :: dropSequences [c] rest
    else e :: c :: dropSequences [] rest
  | held, c :: rest =>
    if isParameter c then dropSequences (held ++ [c]) rest
    else if c.isAlpha then dropSequences [] rest
    else if c == escape then held ++ dropSequences [c] rest
    else held ++ c :: dropSequences [] rest

/-- A text as it is printed. -/
def printable (text : String) : String := String.ofList (dropSequences [] text.toList)

/-- The characters with each end of a line as one character. A carriage return alone ends no line.
-/
def joinReturns : List Char → List Char
  | '\r' :: '\n' :: rest => '\n' :: joinReturns rest
  | c :: rest => c :: joinReturns rest
  | [] => []

end ShaderFlow.Cli
