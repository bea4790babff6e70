import ShaderFlow.Binary64.Basic
import ShaderFlow.Text.Class

set_option autoImplicit false

namespace ShaderFlow.Text

/-- The most digits an integer may be written with. -/
def integerDigitLimit : Nat := 4300

/-- The digits that go on after a digit, single underscores between them, and the rest. -/
def digitTail : List Char → List Nat × List Char
  | '_' :: c :: rest =>
    match digitValue? c with
    | some d => ((digitTail rest).map (d :: ·) id)
    | none => ([], '_' :: c :: rest)
  | c :: rest =>
    match digitValue? c with
    | some d => ((digitTail rest).map (d :: ·) id)
    | none => ([], c :: rest)
  | [] => ([], [])

/-- The leading digits and the rest. -/
def digitRun : List Char → List Nat × List Char
  | c :: rest =>
    match digitValue? c with
    | some d => ((digitTail rest).map (d :: ·) id)
    | none => ([], c :: rest)
  | [] => ([], [])

def ofDigits (ds : List Nat) : Nat := ds.foldl (fun n d => 10 * n + d) 0

/-- An optional sign: whether it is a minus, and the rest. -/
def sign : List Char → Bool × List Char
  | '-' :: rest => (true, rest)
  | '+' :: rest => (false, rest)
  | rest => (false, rest)

/-- An integer in plain ASCII at the start of characters, behind blanks at times, and the rest. -/
def leadingInteger? (cs : List Char) : Option (Int × List Char) :=
  let (negative, body) := sign (cs.dropWhile isPlainBlank)
  let digits := body.takeWhile Char.isDigit
  let size := ofDigits (digits.map (·.toNat - '0'.toNat))
  if digits.isEmpty then none
  else some (if negative then -(size : Int) else size, body.drop digits.length)

/-- The integer in a signed word of 64 bits that is nearest to an integer. -/
def clampWord (n : Int) : Int := max (-(Nat.pow 2 63 : Int)) (min n ((Nat.pow 2 63 : Int) - 1))

/-- Why a text is no integer. -/
inductive IntegerFault where
  | invalid
  | tooLong (digits : Nat)
  deriving DecidableEq

def readInteger (s : String) : Except IntegerFault Int :=
  let (negative, body) := sign (trimBy isNumeralBlank s.toList)
  match digitRun body with
  | ([], _) | (_, _ :: _) => .error .invalid
  | (ds, []) =>
    if integerDigitLimit < ds.length then .error (.tooLong ds.length)
    else .ok (if negative then -(ofDigits ds : Int) else ofDigits ds)

/-- The optional fraction of a number: its digits, and the rest. -/
def fraction : List Char → List Nat × List Char
  | '.' :: rest => digitRun rest
  | rest => ([], rest)

/-- The optional exponent of a number; none when the mark has no digits after it. -/
def exponent? : List Char → Option (Int × List Char)
  | c :: rest =>
    if c == 'e' || c == 'E' then
      let (negative, rest) := sign rest
      match digitRun rest with
      | ([], _) => none
      | (ds, rest) => some (if negative then -(ofDigits ds : Int) else ofDigits ds, rest)
    else some (0, c :: rest)
  | [] => some (0, [])

/-- A number without sign and blanks. -/
def readMagnitude (negative : Bool) (cs : List Char) : Option Binary64 :=
  let word := String.ofList (cs.map Char.toLower)
  if word == "inf" || word == "infinity" then some (Binary64.infinity negative)
  else if word == "nan" then
    some (if negative then (Binary64.otherNan 0).neg else Binary64.otherNan 0)
  else
    let (whole, rest) := digitRun cs
    let (part, rest) := fraction rest
    if whole.isEmpty && part.isEmpty then none
    else
      match exponent? rest with
      | some (e, []) =>
        some (Binary64.ofDecimal negative (ofDigits (whole ++ part)) (e - part.length))
      | _ => none

/-- The number a text denotes. -/
def readNumber (s : String) : Option Binary64 :=
  let (negative, body) := sign (trimBy isNumeralBlank s.toList)
  readMagnitude negative body

end ShaderFlow.Text
