import ShaderFlow.Binary64.Format
import ShaderFlow.Json.Basic
import ShaderFlow.Text.Quoted

set_option autoImplicit false

namespace ShaderFlow.Json

mutual
/-- A value as messages show it. -/
def display : Json → String
  | null => "None"
  | bool b => if b then "True" else "False"
  | int n => toString n
  | float x => x.text
  | str s => Text.quoted s
  | arr items => "[" ++ ", ".intercalate (displayItems items) ++ "]"
  | obj members => "\x7b" ++ ", ".intercalate (displayMembers members) ++ "\x7d"

def displayItems : List Json → List String
  | [] => []
  | v :: rest => v.display :: displayItems rest

def displayMembers : List (String × Json) → List String
  | [] => []
  | (key, v) :: rest => (Text.quoted key ++ ": " ++ v.display) :: displayMembers rest
end

/-- A value within a sentence: text stands bare. -/
def bare : Json → String
  | str s => s
  | v => v.display

end ShaderFlow.Json
