import ShaderFlow.Text.Hex
import ShaderFlow.Text.Printable
import ShaderFlow.Text.Surrogate

set_option autoImplicit false

namespace ShaderFlow.Text

def quoteFor (xs : List Symbol) : Char :=
  if xs.contains (.char '\'') && !xs.contains (.char '"') then '"' else '\''

def escapeChar (quote c : Char) : String :=
  if c == quote || c == '\\' then "\\" ++ String.singleton c
  else if c == '\n' then "\\n"
  else if c == '\r' then "\\r"
  else if c == '\t' then "\\t"
  else if isPrintable c then String.singleton c
  else if c.toNat ≤ 0xff then "\\x" ++ hex 2 c.toNat
  else if c.toNat ≤ 0xffff then "\\u" ++ hex 4 c.toNat
  else "\\U" ++ hex 8 c.toNat

def escape (quote : Char) : Symbol → String
  | .char c => escapeChar quote c
  | .half n => "\\u" ++ hex 4 n

def quoted (s : String) : String :=
  let xs := symbols s
  let quote := quoteFor xs
  xs.foldl (fun text x => text ++ escape quote x) (String.singleton quote) ++
    String.singleton quote

end ShaderFlow.Text
