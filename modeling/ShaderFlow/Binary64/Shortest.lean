import ShaderFlow.Binary64.Basic

set_option autoImplicit false

namespace ShaderFlow

/-- The decimal `digits · 10^exponent`. -/
structure Decimal where
  digits : Nat
  exponent : Int
  deriving DecidableEq, Inhabited

namespace Decimal

/-- Count of decimal digits of `n`, none for zero. -/
def width (n : Nat) : Nat := if n = 0 then 0 else (toString n).length

/-- The least `k` with `num / den < 10^k`, for positive `num` and `den`. -/
def order (num den : Nat) : Int :=
  if den ≤ num then width (num / den)
  else 1 - (width ((den + num - 1) / num - 1) : Int)

/-- Trailing zeros moved into the exponent, at most `fuel` of them. -/
def strip : Nat → Decimal → Decimal
  | 0, d => d
  | fuel + 1, d =>
    if d.digits ≠ 0 ∧ d.digits % 10 = 0 then strip fuel ⟨d.digits / 10, d.exponent + 1⟩ else d

end Decimal

namespace Binary64

/-- The reals that round to `m · 2^q`: the interval from `low / den` to `high / den` around
`mid / den`, whose ends belong to it when `closed`. -/
structure Interval where
  low : Nat
  mid : Nat
  high : Nat
  den : Nat
  closed : Bool

/-- Half the distance to either neighbour; below a power of two the neighbour is twice as near. -/
def interval (m : Nat) (q : Int) : Interval :=
  let below := if m = Nat.pow 2 52 ∧ -1074 < q then 1 else 2
  let unit := Nat.pow 2 (q - 2).toNat
  { low := (4 * m - below) * unit
    mid := 4 * m * unit
    high := (4 * m + 2) * unit
    den := Nat.pow 2 (2 - q).toNat
    closed := m % 2 == 0 }

namespace Interval

/-- Whether the point `num / den'` belongs to the interval. -/
def contains (i : Interval) (num den' : Nat) : Bool :=
  if i.closed then decide (i.low * den' ≤ num * i.den) && decide (num * i.den ≤ i.high * den')
  else decide (i.low * den' < num * i.den) && decide (num * i.den < i.high * den')

/-- The nearest of the two points of the grid `10^exponent` around the middle that belong to the
interval; the even one of two equally near. -/
def onGrid (i : Interval) (exponent : Int) : Option Decimal :=
  let up := Nat.pow 10 exponent.toNat
  let down := Nat.pow 10 (-exponent).toNat
  let c := i.mid * down / (i.den * up)
  let lower := i.contains (c * up) down
  let upper := i.contains ((c + 1) * up) down
  let twice := 2 * i.mid * down
  let half := (2 * c + 1) * up * i.den
  let nearer :=
    if twice < half then c else if half < twice then c + 1 else c + c % 2
  if lower && upper then some ⟨nearer, exponent⟩
  else if lower then some ⟨c, exponent⟩
  else if upper then some ⟨c + 1, exponent⟩
  else none

end Interval

/-- The shortest decimal that reads back as `m · 2^q`; seventeen digits always suffice. -/
def shortest (m : Nat) (q : Int) : Decimal :=
  let i := interval m q
  let order := Decimal.order i.mid i.den
  let found := (List.range 17).findSome? fun (n : Nat) => i.onGrid (order - (n : Int) - 1)
  Decimal.strip 20 (found.getD ⟨0, 0⟩)

end Binary64

end ShaderFlow
