import ShaderFlow.Render.FloatForm
import ShaderFlow.Text.Numeral

set_option autoImplicit false

/-
Texts are read in two further ways. A long numeral is plain ASCII, decimal or hexadecimal, and is
read with all its digits. A complex numeral is a sum of a real and an imaginary part, which ends in
`j`; either part may be missing, and brackets may stand around.
-/

namespace ShaderFlow.Wide

/-- Whether characters begin with a word, in small or capital letters, and what is behind it. -/
def afterWord? (word : String) (cs : List Char) : Option (List Char) :=
  let n := word.length
  if (cs.take n).map Char.toLower == word.toList then some (cs.drop n) else none

/-- What is behind the word for NaN: in brackets a name for it may follow. -/
def behindNan : List Char → List Char
  | '(' :: rest =>
    match rest.dropWhile fun c => c.isAlphanum || c == '_' with
    | ')' :: rest => rest
    | rest => rest
  | rest => rest

def hexValue? (c : Char) : Option Nat :=
  if c.isDigit then some (c.toNat - '0'.toNat)
  else if decide ('a' ≤ c.toLower) && decide (c.toLower ≤ 'f') then
    some (c.toLower.toNat - 'a'.toNat + 10)
  else none

def decimalValue? (c : Char) : Option Nat :=
  if c.isDigit then some (c.toNat - '0'.toNat) else none

/-- The leading digits, and the rest. -/
def digitsOf (value? : Char → Option Nat) : List Char → List Nat × List Char
  | [] => ([], [])
  | c :: rest =>
    match value? c with
    | some d => (digitsOf value? rest).map (d :: ·) id
    | none => ([], c :: rest)

/-- The digits before and behind an optional point, and the rest. -/
def pointed (value? : Char → Option Nat) (cs : List Char) : List Nat × List Nat × List Char :=
  let (whole, rest) := digitsOf value? cs
  match rest with
  | '.' :: rest => (whole, digitsOf value? rest)
  | rest => (whole, [], rest)

/-- An exponent behind its mark, which takes up all that is left; none is zero. -/
def exponentOf? (mark : Char) : List Char → Option Int
  | [] => some 0
  | c :: rest =>
    let (negative, rest) := Text.sign rest
    match c.toLower == mark, digitsOf decimalValue? rest with
    | true, (d :: ds, []) =>
      let size := Text.ofDigits (d :: ds)
      some (if negative then -(size : Int) else size)
    | _, _ => none

/-- The powers of two beyond which every format is left. -/
def binaryLimit : Int := 20000

/-- A hexadecimal numeral behind its mark. -/
def readHex? (negative : Bool) (cs : List Char) : Option Wide := do
  let (whole, part, rest) := pointed hexValue? cs
  if whole.isEmpty && part.isEmpty then none
  let e ← exponentOf? 'p' rest
  let m := (whole ++ part).foldl (fun n d => 16 * n + d) 0
  let q := e - 4 * part.length
  if m = 0 ∨ q + Nat.log2 m < -binaryLimit then return ⟨negative, .finite 0 0⟩
  if binaryLimit < q + Nat.log2 m then return ⟨negative, .infinite⟩
  return ⟨negative, .finite m q⟩

/-- A decimal numeral without its sign. -/
def readDecimal? (negative : Bool) (cs : List Char) : Option Wide := do
  let (whole, part, rest) := pointed decimalValue? cs
  if whole.isEmpty && part.isEmpty then none
  let e ← exponentOf? 'e' rest
  return ofDecimal negative (Text.ofDigits (whole ++ part)) (e - part.length)

/-- The number of a long numeral. It ends with the text or before a null character. Blanks alone are
zero. -/
def ofLongNumeral? (s : String) : Option Wide :=
  let cs := s.toList.takeWhile (· != '\x00')
  let (negative, body) := Text.sign (cs.dropWhile Text.isPlainBlank)
  if !cs.isEmpty && cs.all Text.isPlainBlank then some zero
  else match afterWord? "nan" body with
  | some rest => if (behindNan rest).isEmpty then some nan else none
  | none =>
    match afterWord? "inf" body with
    | some rest =>
      if ((afterWord? "inity" rest).getD rest).isEmpty then some ⟨negative, .infinite⟩ else none
    | none =>
      match afterWord? "0x" body with
      | some rest => readHex? negative rest
      | none => readDecimal? negative body

/-- A number at the start of a text, with its sign, and the rest. -/
def floatHead? (cs : List Char) : Option (Wide × List Char) :=
  let (negative, body) := Text.sign cs
  match afterWord? "nan" body with
  | some rest => some (⟨negative, .nan⟩, rest)
  | none =>
    match afterWord? "inf" body with
    | some rest => some (⟨negative, .infinite⟩, (afterWord? "inity" rest).getD rest)
    | none =>
      let (whole, rest) := Text.digitRun body
      let (part, rest) := Text.fraction rest
      if whole.isEmpty && part.isEmpty then none
      else
        let (e, rest) := (Text.exponent? rest).getD (0, rest)
        let x := Binary64.ofDecimal negative (Text.ofDigits (whole ++ part)) (e - part.length)
        some (ofFloat x, rest)

/-- What is behind the mark of an imaginary part. -/
def behindUnit? : List Char → Option (List Char)
  | 'j' :: rest | 'J' :: rest => some rest
  | _ => none

/-- An imaginary part, whose number may be left out behind a sign, and the rest. -/
def imaginary? (cs : List Char) : Option (Wide × List Char) :=
  match floatHead? cs with
  | some (y, rest) => (behindUnit? rest).map (y, ·)
  | none =>
    let (negative, rest) := Text.sign cs
    (behindUnit? rest).map (one negative, ·)

/-- A real part, an imaginary one or both, and the rest. -/
def complexHead? (cs : List Char) : Option ((Wide × Wide) × List Char) :=
  match imaginary? cs with
  | some (y, rest) => some ((zero, y), rest)
  | none =>
    match floatHead? cs with
    | none => none
    | some (x, rest) =>
      match rest with
      | '+' :: _ | '-' :: _ => (imaginary? rest).map fun (y, rest) => ((x, y), rest)
      | _ => some ((x, zero), rest)

/-- The real and the imaginary part of a complex numeral. -/
def ofComplexNumeral? (s : String) : Option (Wide × Wide) :=
  let trim := Text.trimBy Text.isNumeralBlank
  let inner := match trim s.toList with
    | '(' :: rest =>
      if rest.getLast? = some ')' then trim rest.dropLast else ['(']
    | cs => cs
  match complexHead? inner with
  | some (z, []) => some z
  | _ => none

end ShaderFlow.Wide
