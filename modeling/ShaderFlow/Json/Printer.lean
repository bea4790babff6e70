import ShaderFlow.Binary64.Format
import ShaderFlow.Json.Basic
import ShaderFlow.Text.Hex
import ShaderFlow.Text.Surrogate

set_option autoImplicit false

namespace ShaderFlow.Json

def escapeUnit (n : Nat) : String := "\\u" ++ Text.hex 4 n

def escapeChar (c : Char) : String :=
  if c == '"' then "\\\""
  else if c == '\\' then "\\\\"
  else if c == '\n' then "\\n"
  else if c == '\r' then "\\r"
  else if c == '\t' then "\\t"
  else if c == '\x08' then "\\b"
  else if c == '\x0c' then "\\f"
  else if 0x20 ≤ c.toNat ∧ c.toNat < 0x7f then String.singleton c
  else if c.toNat ≤ 0xffff then escapeUnit c.toNat
  else
    let n := c.toNat - 0x10000
    escapeUnit (0xd800 + n / 0x400) ++ escapeUnit (0xdc00 + n % 0x400)

def escapeSymbol : Text.Symbol → String
  | .char c => escapeChar c
  | .half n => escapeUnit n

def stringText (s : String) : String :=
  (Text.symbols s).foldl (fun text x => text ++ escapeSymbol x) "\"" ++ "\""

/-- The name of a member. -/
def nameText (name : String) : String :=
  stringText ((SpelledName.ofName? name).elim name SpelledName.text)

/-- Values that hold no other. -/
def leafText : Json → String
  | null => "null"
  | bool b => if b then "true" else "false"
  | int n => toString n
  | float x => x.textIn Binary64.document
  | str s => stringText s
  | arr _ => "[]"
  | obj _ => "\x7b\x7d"

mutual
/-- A value on one line. -/
def text : Json → String
  | arr items => "[" ++ ", ".intercalate (itemTexts items) ++ "]"
  | obj members => "\x7b" ++ ", ".intercalate (memberTexts members) ++ "\x7d"
  | v => v.leafText

def itemTexts : List Json → List String
  | [] => []
  | v :: rest => v.text :: itemTexts rest

def memberTexts : List (String × Json) → List String
  | [] => []
  | (key, v) :: rest => (nameText key ++ ": " ++ v.text) :: memberTexts rest
end

def newline (depth : Nat) : String := "\n" ++ String.ofList (List.replicate (2 * depth) ' ')

mutual
/-- A value over several lines, its own first line at `depth`. -/
def linesAt (depth : Nat) : Json → String
  | arr (v :: rest) =>
    "[" ++ newline (depth + 1) ++
      ("," ++ newline (depth + 1)).intercalate (itemLines (depth + 1) (v :: rest)) ++
      newline depth ++ "]"
  | obj (m :: rest) =>
    "\x7b" ++ newline (depth + 1) ++
      ("," ++ newline (depth + 1)).intercalate (memberLines (depth + 1) (m :: rest)) ++
      newline depth ++ "\x7d"
  | v => v.leafText

def itemLines (depth : Nat) : List Json → List String
  | [] => []
  | v :: rest => v.linesAt depth :: itemLines depth rest

def memberLines (depth : Nat) : List (String × Json) → List String
  | [] => []
  | (key, v) :: rest => (nameText key ++ ": " ++ v.linesAt depth) :: memberLines depth rest
end

/-- A value over several lines. -/
def lines (v : Json) : String := v.linesAt 0

end ShaderFlow.Json
