import ShaderFlow.Binary64.Basic

set_option autoImplicit false

namespace ShaderFlow

/-- The size of a number: `finite m q` is `m · 2^q`. -/
inductive Magnitude where
  | nan
  | infinite
  | finite (mantissa : Nat) (exponent : Int)
  deriving DecidableEq, Inhabited

/-- A number of any precision. Also zero and NaN have a sign. -/
structure Wide where
  negative : Bool
  magnitude : Magnitude
  deriving DecidableEq, Inhabited

namespace Wide

def zero : Wide := ⟨false, .finite 0 0⟩

def one (negative : Bool) : Wide := ⟨negative, .finite 1 0⟩

def nan : Wide := ⟨false, .nan⟩

def ofFloat (x : Binary64) : Wide :=
  ⟨x.hasSign,
    match x.view with
    | .nan => .nan
    | .infinite _ => .infinite
    | .finite _ m q => .finite m q⟩

def ofInt (n : Int) : Wide := ⟨decide (n < 0), .finite n.natAbs 0⟩

/-- How many bits of a quotient are kept at least. No format has as many. -/
def quotientBits : Nat := 80

/-- The quotient of two numbers, cut short behind more bits than any format has. Its last bit tells
whether something was cut off, so that it rounds as the quotient does. -/
def ofRatio (negative : Bool) (num den : Nat) : Wide :=
  let shift := den.log2 + quotientBits
  let scaled := num * Nat.pow 2 shift
  let rest := if scaled % den = 0 then 0 else 1
  ⟨negative, .finite (2 * (scaled / den) + rest) (-(shift : Int) - 1)⟩

/-- The powers of ten beyond which every format is left. -/
def decimalLimit : Int := 5000

/-- The number `digits · 10^exponent`. Exponents far out of range are cut short, so that no huge
power is formed. -/
def ofDecimal (negative : Bool) (digits : Nat) (exponent : Int) : Wide :=
  let order := ((toString digits).length : Int) + exponent
  if digits = 0 ∨ order < -decimalLimit then ⟨negative, .finite 0 0⟩
  else if decimalLimit < order then ⟨negative, .infinite⟩
  else if 0 ≤ exponent then ⟨negative, .finite (digits * Nat.pow 10 exponent.toNat) 0⟩
  else ofRatio negative digits (Nat.pow 10 (-exponent).toNat)

def isNan (x : Wide) : Bool := x.magnitude == .nan

/-- The integer part of a finite number, cut off toward zero. -/
def truncate? (x : Wide) : Option Int :=
  match x.magnitude with
  | .finite m q =>
    let size := if 0 ≤ q then m * Nat.pow 2 q.toNat else m / Nat.pow 2 (-q).toNat
    some (if x.negative then -(size : Int) else size)
  | _ => none

end Wide

/-- A binary format of floats. -/
structure FloatForm where
  /-- Bits of the exponent. -/
  exponentBits : Nat
  /-- Bits of the mantissa behind its first one. -/
  mantissaBits : Nat
  /-- Whether the first one of the mantissa is stored too. -/
  storesOne : Bool
  byteCount : Nat
  deriving DecidableEq, Inhabited

namespace FloatForm

def half : FloatForm := ⟨5, 10, false, 2⟩

def single : FloatForm := ⟨8, 23, false, 4⟩

def double : FloatForm := ⟨11, 52, false, 8⟩

def extended : FloatForm := ⟨15, 63, true, 16⟩

/-- What is added to exponents so that none is stored with a sign. -/
def bias (f : FloatForm) : Int := (Nat.pow 2 (f.exponentBits - 1) : Int) - 1

/-- The exponent of the least number above zero. -/
def lowest (f : FloatForm) : Int := 1 - f.bias - f.mantissaBits

/-- The nearest number of the format. -/
def round (f : FloatForm) (x : Wide) : Wide :=
  match x.magnitude with
  | .finite m q =>
    let drop := max ((Nat.log2 m : Int) - f.mantissaBits) (f.lowest - q)
    let rounded := if drop ≤ 0 then m else Binary64.divNearest m (Nat.pow 2 drop.toNat)
    let exponent := q + max 0 drop
    if rounded ≠ 0 ∧ f.bias < Nat.log2 rounded + exponent then { x with magnitude := .infinite }
    else { x with magnitude := .finite rounded exponent }
  | _ => x

/-- How many bits are below the exponent. -/
def storedBits (f : FloatForm) : Nat := f.mantissaBits + f.storesOne.toNat

/-- The stored form of an exponent and a mantissa that begins with a one. -/
def pack (f : FloatForm) (exponent mantissa : Nat) : Nat :=
  exponent * Nat.pow 2 f.storedBits +
    (if f.storesOne then mantissa else mantissa - Nat.pow 2 f.mantissaBits)

/-- The stored form of the size of a number that the format has. -/
def sizeBits (f : FloatForm) (magnitude : Magnitude) : Nat :=
  let infinity := f.pack (Nat.pow 2 f.exponentBits - 1) (Nat.pow 2 f.mantissaBits)
  match magnitude with
  | .nan => infinity + Nat.pow 2 (f.mantissaBits - 1)
  | .infinite => infinity
  | .finite m q =>
    let shift := max (Nat.log2 m + q - f.mantissaBits) f.lowest - q
    let mantissa := m * Nat.pow 2 (-shift).toNat / Nat.pow 2 shift.toNat
    if mantissa < Nat.pow 2 f.mantissaBits then mantissa
    else f.pack (q + shift - f.lowest + 1).toNat mantissa

/-- The stored form of a number that the format has. -/
def bits (f : FloatForm) (x : Wide) : Nat :=
  if x.negative then Nat.pow 2 (f.exponentBits + f.storedBits) + f.sizeBits x.magnitude
  else f.sizeBits x.magnitude

end FloatForm

end ShaderFlow
