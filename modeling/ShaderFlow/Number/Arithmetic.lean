import ShaderFlow.Json.Coerce
import ShaderFlow.Number.Basic

set_option autoImplicit false

namespace ShaderFlow.Number

/-- The number as a float. -/
def toFloat (a : Number) : Except Error Binary64 := a.toJson.toNumber

def add (a b : Number) : Except Error Number :=
  match a.int?, b.int? with
  | some m, some n => .ok (int (m + n))
  | _, _ => return float ((← a.toFloat).add (← b.toFloat))

def sub (a b : Number) : Except Error Number :=
  match a.int?, b.int? with
  | some m, some n => .ok (int (m - n))
  | _, _ => return float ((← a.toFloat).sub (← b.toFloat))

/-- Reads a number, whatever its form. -/
def ofJson (v : Json) : Except Error Number :=
  match ofJson? v with
  | some a => .ok a
  | none => .error (.misuse .shape "not a number")

end ShaderFlow.Number
