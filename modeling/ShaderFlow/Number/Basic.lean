import ShaderFlow.Json.Display

set_option autoImplicit false

namespace ShaderFlow

inductive Number where
  | flag (b : Bool)
  | int (n : Int)
  | float (x : Binary64)
  deriving DecidableEq, Inhabited

namespace Number

def ofJson? : Json → Option Number
  | .bool b => some (flag b)
  | .int n => some (int n)
  | .float x => some (float x)
  | _ => none

def toJson : Number → Json
  | flag b => .bool b
  | int n => .int n
  | float x => .float x

/-- A number as messages show it. -/
def text (a : Number) : String := a.toJson.display

/-- The integer that a number is, unless it is a float. -/
def int? : Number → Option Int
  | flag b => some (if b then 1 else 0)
  | int n => some n
  | float _ => none

def view : Number → Binary64.View
  | flag b => .finite false b.toNat 0
  | int n => .finite (decide (n < 0)) n.natAbs 0
  | float x => x.view

/-- A mantissa with its sign. -/
def signed (negative : Bool) (mantissa : Nat) : Int :=
  if negative then -(mantissa : Int) else mantissa

/-- The order of two exact values. NaN stands in no order. -/
def orderViews : Binary64.View → Binary64.View → Option Ordering
  | .nan, _ | _, .nan => none
  | .infinite s, .infinite t => some (if s = t then .eq else if s then .lt else .gt)
  | .infinite s, .finite .. => some (if s then .lt else .gt)
  | .finite .., .infinite t => some (if t then .gt else .lt)
  | .finite s m p, .finite t n q =>
    let low := min p q
    some (compare (signed s m * Nat.pow 2 (p - low).toNat) (signed t n * Nat.pow 2 (q - low).toNat))

def order (a b : Number) : Option Ordering := orderViews a.view b.view

def lt (a b : Number) : Bool := a.order b == some .lt

def le (a b : Number) : Bool := a.order b == some .lt || a.order b == some .eq

def isPositive (a : Number) : Bool := lt (int 0) a

def isNegative (a : Number) : Bool := a.lt (int 0)

end Number

end ShaderFlow
