import ShaderFlow.Error
import ShaderFlow.Text.Numeral

set_option autoImplicit false

namespace ShaderFlow

/-- The units that time is counted in, the longest first. -/
inductive TimeUnit where
  | year
  | month
  | week
  | day
  | hour
  | minute
  | second
  /-- A part of a second: one of `1000^power`. -/
  | part (power : Nat)
  deriving DecidableEq, Inhabited

namespace TimeUnit

/-- All units with their names. -/
def named : List (String × TimeUnit) :=
  [("Y", year), ("M", month), ("W", week), ("D", day), ("h", hour), ("m", minute), ("s", second),
    ("ms", part 1), ("us", part 2), ("μs", part 2), ("ns", part 3), ("ps", part 4),
    ("fs", part 5), ("as", part 6)]

/-- How fine a unit is among all. -/
def fineness : TimeUnit → Nat
  | year => 0
  | month => 1
  | week => 2
  | day => 3
  | hour => 4
  | minute => 5
  | second => 6
  | part power => 6 + power

/-- The finest part of a second. -/
def finestPower : Nat := 6

/-- What a unit is divided into: finer units, and how many of them it is taken for. A week that none
of them divides is no year at all. -/
def parts : TimeUnit → List (Int × TimeUnit)
  | year => [(12, month), (52, week), (365, day)]
  | month => [(4, week), (30, day), (720, hour)]
  | week => [(7, day), (168, hour), (10080, minute), (0, year)]
  | day => [(24, hour), (1440, minute), (86400, second)]
  | hour => [(60, minute), (3600, second)]
  | minute => [(60, second), (60000, part 1)]
  | second => [(1000, part 1), (1000000, part 2)]
  | part power =>
    if power + 1 < finestPower then [(1000, part (power + 1)), (1000000, part (power + 2))]
    else if power < finestPower then [(1000, part (power + 1))]
    else []

end TimeUnit

/-- So many of a unit of time. -/
structure TimeStep where
  unit : TimeUnit
  count : Int := 1
  deriving DecidableEq, Inhabited

namespace TimeStep

/-- The integer in a signed word of 32 bits that has the same lowest bits as an integer. -/
def lowWord (n : Int) : Int := Int.bmod n (Nat.pow 2 32)

/-- A part of a step, in the first unit of which it is a whole number. -/
def divide? (step : TimeStep) (divisor : Int) : Option TimeStep :=
  (step.unit.parts.find? fun part => part.1 % divisor == 0).map fun (n, unit) =>
    { unit, count := lowWord (step.count * (n / divisor)) }

/-- The failure of a text that is no step of time. -/
def unknown {α : Type} : Except Error α := .error (.misuse .shape "no step of time")

/-- The failure of a step that cannot be divided. -/
def indivisible {α : Type} : Except Error α := .error (.misuse .value "no part of a step of time")

/-- A step divided by what stands behind its unit, which is nothing, or a slash and an integer. Time
of no unit has no parts. -/
def divided (step : Option TimeStep) : List Char → Except Error (Option TimeStep)
  | [] => .ok step
  | _ :: rest =>
    match Text.leadingInteger? rest with
    | some (n, []) =>
      let divisor := lowWord (Text.clampWord n)
      if divisor = 1 then .ok step
      else match step.bind (divide? · divisor) with
        | some step => .ok (some step)
        | none => indivisible
    | _ => unknown

/-- A step without its brackets: how many, a unit, and what it is divided by. -/
def readInner (cs : List Char) : Except Error (Option TimeStep) :=
  let (count, rest) := (Text.leadingInteger? cs).getD (1, cs)
  let word := String.ofList (rest.takeWhile (· != '/'))
  let behind := rest.dropWhile (· != '/')
  if count < 0 ∨ Nat.pow 2 31 ≤ count then unknown
  else if word == "generic" then divided none behind
  else match TimeUnit.named.lookup word with
    | some unit => divided (some { unit, count }) behind
    | none => unknown

/-- The step that stands in brackets behind the name of a type, or nothing for time of no unit. -/
def read : List Char → Except Error (Option TimeStep)
  | [] => .ok none
  | '[' :: rest =>
    if rest.dropWhile (· != ']') == [']'] then readInner (rest.takeWhile (· != ']')) else unknown
  | _ => unknown

end TimeStep

end ShaderFlow
