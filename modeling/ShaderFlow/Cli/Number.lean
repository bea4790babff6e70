import ShaderFlow.Text.Numeral

set_option autoImplicit false

/-
The values of options are written in ASCII. An integer may have a plus sign, zeros before its digits
or before its minus sign, but not in both places, and a fraction of zeros only; a number may be
infinite or not a number. Single underscores may stand between the characters, and any number of
them among the leading zeros.
-/

namespace ShaderFlow.Cli

def isAscii (cs : List Char) : Bool := cs.all fun c => decide (c.toNat < 0x80)

/-- The characters that begin an integer behind its leading zeros. -/
def beginsInteger (c : Char) : Bool := c == '-' || (decide ('1' ≤ c) && decide (c ≤ '9'))

/-- What is left behind leading zeros, of which `last` was the last character. Of zeros alone the
last character is left, and before a point as well. -/
def behindZeros? (last : Char) : List Char → Option (List Char)
  | [] => some [last]
  | c :: rest =>
    if c == '0' || c == '_' then behindZeros? c rest
    else if beginsInteger c then some (c :: rest)
    else if c == '.' then some (last :: c :: rest)
    else none

/-- An integer without the zeros before all else. -/
def dropZeros? : List Char → Option (List Char)
  | '0' :: rest => behindZeros? '0' rest
  | c :: rest => if beginsInteger c then some (c :: rest) else none
  | [] => none

/-- An integer without its leading zeros, which may stand behind a minus sign. -/
def dropLeading? : List Char → Option (List Char)
  | '-' :: rest => (dropZeros? rest).map ('-' :: ·)
  | cs => dropZeros? cs

/-- An integer without its plus sign, which no minus sign may follow. -/
def dropPlus? : List Char → Option (List Char)
  | '+' :: '-' :: _ => none
  | '+' :: rest => some rest
  | cs => some cs

/-- An integer without a fraction of zeros. -/
def dropFraction (cs : List Char) : List Char :=
  match cs.dropWhile (· != '.') with
  | _ :: zeros =>
    if !zeros.isEmpty && zeros.all (· == '0') then cs.takeWhile (· != '.') else cs
  | [] => cs

/-- The characters without underscores, if each of them stands alone between two others. -/
def dropUnderscores? : List Char → Option (List Char)
  | '_' :: _ => none
  | [] => some []
  | c :: '_' :: rest =>
    match rest with
    | [] => none
    | _ => (dropUnderscores? rest).map (c :: ·)
  | c :: rest => (dropUnderscores? rest).map (c :: ·)

/-- The natural number that digits denote. No zero stands before other digits, and there are no more
of them than an integer may be written with. -/
def digits? (cs : List Char) : Option Nat :=
  let padded := decide (1 < cs.length) && cs.head? == some '0'
  let fits := !cs.isEmpty && decide (cs.length ≤ Text.integerDigitLimit)
  if fits && !padded && cs.all (fun c => decide ('0' ≤ c) && decide (c ≤ '9')) then
    some (Text.ofDigits (cs.map (·.toNat - '0'.toNat)))
  else none

/-- Digits behind an optional minus sign. -/
def signedDigits? : List Char → Option Int
  | '-' :: body => (digits? body).map fun n => -(n : Int)
  | body => (digits? body).map fun n => (n : Int)

/-- The integer that the value of an option denotes. -/
def readInteger? (s : String) : Option Int := do
  let signed ← dropPlus? (Text.trimBy Text.isNumeralBlank s.toList)
  signedDigits? (← dropUnderscores? (dropFraction (← dropLeading? signed)))

/-- A number without blanks and underscores. -/
def plainNumber? (cs : List Char) : Option Binary64 :=
  if isAscii cs && !cs.contains '_' then
    let (negative, body) := Text.sign cs
    Text.readMagnitude negative body
  else none

/-- The number that the value of an option denotes. -/
def readNumber? (s : String) : Option Binary64 :=
  match plainNumber? (Text.trimBy Text.isNumeralBlank s.toList) with
  | some x => some x
  | none => (dropUnderscores? s.toList).bind plainNumber?

end ShaderFlow.Cli
