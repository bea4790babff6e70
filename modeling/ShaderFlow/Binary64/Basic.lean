set_option autoImplicit false

namespace ShaderFlow

/-- A 64-bit binary floating point number. -/
structure Binary64 where
  bits : UInt64
  deriving DecidableEq, Inhabited

namespace Binary64

/-- What a bit pattern stands for: `finite s m q` is `m · 2^q`, negated when `s` holds. -/
inductive View where
  | nan
  | infinite (negative : Bool)
  | finite (negative : Bool) (mantissa : Nat) (exponent : Int)
  deriving DecidableEq

def view (x : Binary64) : View :=
  let word := x.bits.toNat
  let negative := decide (Nat.pow 2 63 ≤ word)
  let field : Nat := word / Nat.pow 2 52 % Nat.pow 2 11
  let fraction : Nat := word % Nat.pow 2 52
  if field = 2047 then
    if fraction = 0 then .infinite negative else .nan
  else if field = 0 then .finite negative fraction (-1074)
  else .finite negative (Nat.pow 2 52 + fraction) ((field : Int) - 1075)

/-- Whether a number carries a minus sign, which also zero and NaN may. -/
def hasSign (x : Binary64) : Bool := decide (Nat.pow 2 63 ≤ x.bits.toNat)

/-- The number with the magnitude bits `word`. -/
def ofMagnitude (negative : Bool) (word : Nat) : Binary64 :=
  ⟨UInt64.ofNat (if negative then Nat.pow 2 63 + word else word)⟩

def zero (negative : Bool) : Binary64 := ofMagnitude negative 0

def infinity (negative : Bool) : Binary64 := ofMagnitude negative (2047 * Nat.pow 2 52)

/-- The NaN that a document's constant denotes. -/
def nan : Binary64 := ofMagnitude false (2047 * Nat.pow 2 52 + Nat.pow 2 51)

/-- A NaN that is not the document's constant, told apart from others by `tag`. -/
def otherNan (tag : Nat) : Binary64 :=
  ofMagnitude false (2047 * Nat.pow 2 52 + Nat.pow 2 51 + 1 + tag % Nat.pow 2 50)

def isNan (x : Binary64) : Bool := x.view == .nan

/-- A number, with NaN told apart from others by `tag`. -/
def own (tag : Nat) (x : Binary64) : Binary64 := if x.isNan then otherNan tag else x

def isFinite (x : Binary64) : Bool :=
  match x.view with
  | .finite .. => true
  | _ => false

def isZero (x : Binary64) : Bool :=
  match x.view with
  | .finite _ 0 _ => true
  | _ => false

/-- The integer nearest to `num / den`, a tie going to the even one. -/
def divNearest (num den : Nat) : Nat :=
  let quotient := num / den
  let rest := num % den
  if 2 * rest < den then quotient
  else if den < 2 * rest then quotient + 1
  else quotient + quotient % 2

/-- The greatest `e` with `2^e ≤ num / den`, for positive `num` and `den`. -/
def floorLog2 (num den : Nat) : Int :=
  let guess : Int := (num.log2 : Int) - den.log2
  let reached :=
    if 0 ≤ guess then decide (den * Nat.pow 2 guess.toNat ≤ num)
    else decide (den ≤ num * Nat.pow 2 (-guess).toNat)
  if reached then guess else guess - 1

/-- The number nearest to `num / den`, infinite when that is out of range. -/
def ofRatio (negative : Bool) (num den : Nat) : Binary64 :=
  if num = 0 then zero negative
  else
    let exponent := max (-1074) (floorLog2 num den - 52)
    let mantissa :=
      if 0 ≤ exponent then divNearest num (den * Nat.pow 2 exponent.toNat)
      else divNearest (num * Nat.pow 2 (-exponent).toNat) den
    let word :=
      if mantissa < Nat.pow 2 52 then mantissa
      else (exponent + 1075).toNat * Nat.pow 2 52 + (mantissa - Nat.pow 2 52)
    if 2047 * Nat.pow 2 52 ≤ word then infinity negative else ofMagnitude negative word

/-- The number nearest to `mantissa · 2^exponent`. -/
def ofScaled (negative : Bool) (mantissa : Nat) (exponent : Int) : Binary64 :=
  if 0 ≤ exponent then ofRatio negative (mantissa * Nat.pow 2 exponent.toNat) 1
  else ofRatio negative mantissa (Nat.pow 2 (-exponent).toNat)

/-- The number nearest to `digits · 10^exponent`. Exponents far out of range are cut short, so
that no huge power is formed. -/
def ofDecimal (negative : Bool) (digits : Nat) (exponent : Int) : Binary64 :=
  if digits = 0 then zero negative
  else
    let order := ((toString digits).length : Int) + exponent
    if 310 < order then infinity negative
    else if order < -330 then zero negative
    else if 0 ≤ exponent then ofRatio negative (digits * Nat.pow 10 exponent.toNat) 1
    else ofRatio negative digits (Nat.pow 10 (-exponent).toNat)

/-- The number `n / 10`. -/
def tenths (n : Nat) : Binary64 := ofDecimal false n (-1)

/-- The number nearest to an integer, if it is in range. -/
def ofInt? (n : Int) : Option Binary64 :=
  let x := ofRatio (decide (n < 0)) n.natAbs 1
  if x.isFinite then some x else none

/-- The integer part of a finite number, cut off toward zero. -/
def truncate? (x : Binary64) : Option Int :=
  match x.view with
  | .finite negative mantissa exponent =>
    let size :=
      if 0 ≤ exponent then mantissa * Nat.pow 2 exponent.toNat
      else mantissa / Nat.pow 2 (-exponent).toNat
    some (if negative then -(size : Int) else size)
  | _ => none

/-- Whether a number is exactly the integer `n`. -/
def isInt (x : Binary64) (n : Int) : Bool :=
  match x.view with
  | .finite negative mantissa exponent =>
    decide ((if negative then -(mantissa : Int) else mantissa) * Nat.pow 2 exponent.toNat =
      n * Nat.pow 2 (-exponent).toNat)
  | _ => false

/-- Two numbers count as one when they have the same bits or are both zero. -/
def alike (x y : Binary64) : Bool := x == y || (x.isZero && y.isZero)

/-- Position of a number on the line; both zeros stand at `0`. -/
def rank (x : Binary64) : Int :=
  let word := x.bits.toNat
  if Nat.pow 2 63 ≤ word then -((word - Nat.pow 2 63 : Nat) : Int) else word

def lt (x y : Binary64) : Bool := !x.isNan && !y.isNan && decide (x.rank < y.rank)

def le (x y : Binary64) : Bool := !x.isNan && !y.isNan && decide (x.rank ≤ y.rank)

def neg (x : Binary64) : Binary64 := ⟨x.bits ^^^ 0x8000000000000000⟩

def add (x y : Binary64) : Binary64 :=
  match x.view, y.view with
  | .nan, _ | _, .nan => otherNan 0
  | .infinite s, .infinite t => if s = t then x else otherNan 0
  | .infinite _, _ => x
  | _, .infinite _ => y
  | .finite s m p, .finite t n q =>
    let low := min p q
    let a : Int := m * Nat.pow 2 (p - low).toNat
    let b : Int := n * Nat.pow 2 (q - low).toNat
    let sum := (if s then -a else a) + (if t then -b else b)
    if sum = 0 then zero (s && t) else ofScaled (decide (sum < 0)) sum.natAbs low

def sub (x y : Binary64) : Binary64 := x.add y.neg

def mul (x y : Binary64) : Binary64 :=
  match x.view, y.view with
  | .nan, _ | _, .nan => otherNan 0
  | .infinite s, .infinite t => infinity (s != t)
  | .infinite s, .finite t n _ => if n = 0 then otherNan 0 else infinity (s != t)
  | .finite s m _, .infinite t => if m = 0 then otherNan 0 else infinity (s != t)
  | .finite s m p, .finite t n q => ofScaled (s != t) (m * n) (p + q)

/-- The reciprocal of a number other than zero. -/
def reciprocal (x : Binary64) : Binary64 :=
  match x.view with
  | .finite s m q =>
    if 0 ≤ q then ofRatio s 1 (m * Nat.pow 2 q.toNat) else ofRatio s (Nat.pow 2 (-q).toNat) m
  | .infinite s => zero s
  | .nan => x

end Binary64

end ShaderFlow
