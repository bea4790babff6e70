import ShaderFlow.Text.Hex
import ShaderFlow.Text.Surrogate

set_option autoImplicit false

namespace ShaderFlow.Text

/-- The characters that end a line. -/
def endsLine (c : Char) : Bool :=
  [0x0a, 0x0b, 0x0c, 0x0d, 0x1c, 0x1d, 0x1e, 0x85, 0x2028, 0x2029].contains c.toNat

/-- The text up to the first end of a line. -/
def firstLine (s : String) : String := String.ofList (s.toList.takeWhile fun c => !endsLine c)

/-- The characters of a text, with each half of a surrogate pair as an escape. -/
def plain (s : String) : String :=
  String.join ((symbols s).map fun
    | .half n => "\\u" ++ hex 4 n
    | .char c => String.singleton c)

/-- The text with each half of a surrogate pair as an escape. -/
def writeHalves (s : String) : String := ofChars (plain s).toList

end ShaderFlow.Text
