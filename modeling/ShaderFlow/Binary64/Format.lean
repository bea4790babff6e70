import ShaderFlow.Binary64.Shortest

set_option autoImplicit false

namespace ShaderFlow

namespace Binary64

/-- The decisions of a number format. -/
structure Layout where
  /-- The least decimal exponent written positionally. -/
  least : Int
  /-- The first decimal exponent above that is not. -/
  bound : Int
  /-- Least count of exponent digits. -/
  exponentWidth : Nat
  nan : String
  infinity : String

/-- Positional from `0.0001` up to below `10^16`, exponents of two digits at least. -/
def plain : Layout := ⟨-4, 16, 2, "nan", "inf"⟩

/-- As `plain`, with the spelling that documents use beyond the finite numbers. -/
def document : Layout := ⟨-4, 16, 2, "NaN", "Infinity"⟩

def zeros (n : Nat) : String := String.ofList (List.replicate n '0')

namespace Layout

/-- Digits with the point after the first `point` of them. -/
def positional (digits : List Char) (point : Int) : String :=
  if point ≤ 0 then "0." ++ zeros (-point).toNat ++ String.ofList digits
  else
    let whole := point.toNat
    let fraction := digits.drop whole
    String.ofList (digits.take whole) ++ zeros (whole - digits.length) ++ "." ++
      (if fraction.isEmpty then "0" else String.ofList fraction)

def exponential (layout : Layout) (digits : List Char) (exponent : Int) : String :=
  let mantissa :=
    match digits with
    | [] => "0"
    | [d] => String.singleton d
    | d :: rest => String.singleton d ++ "." ++ String.ofList rest
  let size := toString exponent.natAbs
  mantissa ++ (if exponent < 0 then "e-" else "e+") ++
    zeros (layout.exponentWidth - size.length) ++ size

def decimal (layout : Layout) (d : Decimal) : String :=
  if d.digits = 0 then "0.0"
  else
    let digits := (toString d.digits).toList
    let exponent := d.exponent + digits.length - 1
    if layout.least ≤ exponent ∧ exponent < layout.bound then positional digits (exponent + 1)
    else layout.exponential digits exponent

end Layout

def textIn (layout : Layout) (x : Binary64) : String :=
  match x.view with
  | .nan => layout.nan
  | .infinite negative => (if negative then "-" else "") ++ layout.infinity
  | .finite negative m q =>
    (if negative then "-" else "") ++
      layout.decimal (if m = 0 then ⟨0, 0⟩ else shortest m q)

/-- The text of a number. -/
def text (x : Binary64) : String := x.textIn plain

instance : ToString Binary64 := ⟨text⟩

/-- A number with a fixed count of decimal places, rounded to nearest and ties to even. -/
def fixed (places : Nat) (x : Binary64) : String :=
  match x.view with
  | .nan => "nan"
  | .infinite negative => if negative then "-inf" else "inf"
  | .finite negative m q =>
    let scaled := divNearest (m * Nat.pow 2 q.toNat * Nat.pow 10 places) (Nat.pow 2 (-q).toNat)
    let digits := toString scaled
    let padded := zeros (places + 1 - digits.length) ++ digits
    let whole := (padded.toList.take (padded.length - places))
    let fraction := (padded.toList.drop (padded.length - places))
    (if negative then "-" else "") ++ String.ofList whole ++
      (if places = 0 then "" else "." ++ String.ofList fraction)

end Binary64

end ShaderFlow
