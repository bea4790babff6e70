import ShaderFlow.Json.Coerce

set_option autoImplicit false

namespace ShaderFlow.Json

/-- The failure of a value that has the wrong shape. -/
def mismatch {α : Type} : Except Error α := .error (.misuse .shape "unexpected shape")

def field (v : Json) (key : String) : Json := (v.get? key).getD .null

def asText : Json → Except Error String
  | str s => .ok s
  | _ => mismatch

def asInt : Json → Except Error Int
  | int n => .ok n
  | bool b => .ok (ofFlag b)
  | _ => mismatch

def asList : Json → Except Error (List Json)
  | arr vs => .ok vs
  | null => .ok []
  | _ => mismatch

def asMembers : Json → Except Error Members
  | obj ms => .ok ms
  | null => .ok []
  | _ => mismatch

/-- Whether a flag is set, or what it counts as if it is not given. -/
def asFlag (other : Bool) : Json → Bool
  | null => other
  | v => v.isTruthy

/-- Reads a value unless it is null. -/
def optional {α : Type} (read : Json → Except Error α) : Json → Except Error (Option α)
  | null => .ok none
  | v => (read v).map some

/-- Reads a value, or takes another in place of null. -/
def orElse {α : Type} (read : Json → Except Error α) (other : α) : Json → Except Error α
  | null => .ok other
  | v => read v

/-- Reads all items of a list. -/
def listOf {α : Type} (read : Json → Except Error α) (v : Json) : Except Error (List α) := do
  (← v.asList).mapM read

def texts (ss : List String) : Json := arr (ss.map str)

def ints (ns : List Int) : Json := arr (ns.map int)

mutual
/-- How deep a value is nested. -/
def depth : Json → Nat
  | arr vs => 1 + depthItems vs
  | obj ms => 1 + depthMembers ms
  | _ => 1

def depthItems : List Json → Nat
  | [] => 0
  | v :: vs => max v.depth (depthItems vs)

def depthMembers : List (String × Json) → Nat
  | [] => 0
  | (_, v) :: ms => max v.depth (depthMembers ms)
end

end ShaderFlow.Json
