import ShaderFlow.Json.Basic
import ShaderFlow.Text.Hex
import ShaderFlow.Text.Numeral
import ShaderFlow.Text.Surrogate

set_option autoImplicit false

namespace ShaderFlow.Json

/-- What a document lacks or has too much of. -/
inductive Flaw where
  | value
  | propertyName
  | colon
  | comma
  | extra
  | mark
  | unterminated
  | control
  | escape
  | unicode
  deriving DecidableEq

namespace Flaw

def message : Flaw → String
  | value => "Expecting value"
  | propertyName => "Expecting property name enclosed in double quotes"
  | colon => "Expecting ':' delimiter"
  | comma => "Expecting ',' delimiter"
  | extra => "Extra data"
  | mark => "Unexpected UTF-8 BOM (decode using utf-8-sig)"
  | unterminated => "Unterminated string starting at"
  | control => "Invalid control character at"
  | escape => "Invalid \\escape"
  | unicode => "Invalid \\uXXXX escape"

end Flaw

/-- Why a text is no document. A flaw is placed by the count of characters from there on. -/
inductive ParseError where
  | flaw (kind : Flaw) (remaining : Nat)
  | integerTooLong (digits : Nat)
  deriving DecidableEq

/-- Message of a flaw, with its line, column and offset in the text. -/
def Flaw.locate (kind : Flaw) (text : List Char) (remaining : Nat) : String :=
  let offset := text.length - remaining
  let before := text.take offset
  let line := before.count '\n' + 1
  let column := (before.reverse.takeWhile (· != '\n')).length + 1
  s!"{kind.message}: line {line} column {column} (char {offset})"

abbrev Parsed (α : Type) := Except ParseError (α × List Char)

def fail {α : Type} (kind : Flaw) (rest : List Char) : Parsed α :=
  .error (.flaw kind rest.length)

def isSpace (c : Char) : Bool := c == ' ' || c == '\t' || c == '\n' || c == '\r'

def skip (cs : List Char) : List Char := cs.dropWhile isSpace

/-- Four hexadecimal digits. They never end a document, so something has to follow. -/
def unit? : List Char → Option (Nat × List Char)
  | a :: b :: c :: d :: next :: rest => do
    let a ← Text.hexValue? a
    let b ← Text.hexValue? b
    let c ← Text.hexValue? c
    let d ← Text.hexValue? d
    return (4096 * a + 256 * b + 16 * c + d, next :: rest)
  | _ => none

/-- The escape after `\u`: one unit, or a pair of them for one character. -/
def unicodeEscape? (cs : List Char) : Option (Text.Symbol × List Char) := do
  let (high, rest) ← unit? cs
  if Text.isHighUnit high then
    match rest with
    | '\\' :: 'u' :: more =>
      match unit? more with
      | some (low, after) =>
        if Text.isLowUnit low then return (.ofPair high low, after)
        else return (.ofUnit high, rest)
      | none => return (.ofUnit high, rest)
    | _ => return (.ofUnit high, rest)
  else return (.ofUnit high, rest)

def simpleEscape? : Char → Option Char
  | '"' => some '"'
  | '\\' => some '\\'
  | '/' => some '/'
  | 'b' => some '\x08'
  | 'f' => some '\x0c'
  | 'n' => some '\n'
  | 'r' => some '\r'
  | 't' => some '\t'
  | _ => none

/-- The symbols of a string up to its closing quote, behind those in `acc`, of which the last comes
first. `opening` are the characters from the opening quote on. -/
def stringBody (opening : List Char) : Nat → List Text.Symbol → List Char → Parsed String
  | 0, _, _ => fail .unterminated opening
  | fuel + 1, acc, cs =>
    match cs with
    | [] => fail .unterminated opening
    | '"' :: rest => .ok (Text.ofSymbols acc.reverse, rest)
    | '\\' :: rest =>
      match rest with
      | [] => fail .unterminated opening
      | 'u' :: more =>
        match unicodeEscape? more with
        | some (x, after) => stringBody opening fuel (x :: acc) after
        | none => fail .unicode rest
      | c :: more =>
        match simpleEscape? c with
        | some c => stringBody opening fuel (.char c :: acc) more
        | none => fail .escape cs
    | c :: rest =>
      if c.toNat < 0x20 then fail .control cs else stringBody opening fuel (.char c :: acc) rest

/-- The string at an opening quote. The fuel is more than the characters from there on. -/
def parseString (fuel : Nat) (cs : List Char) : Parsed String := stringBody cs fuel [] cs.tail

def isDigit (c : Char) : Bool := decide ('0' ≤ c) && decide (c ≤ '9')

/-- The digits before the point: one zero, or digits that start with none. -/
def integerPart : List Char → Option (List Char × List Char)
  | '0' :: rest => some (['0'], rest)
  | c :: rest =>
    if isDigit c then some (c :: rest.takeWhile isDigit, rest.dropWhile isDigit) else none
  | [] => none

/-- The digits after a point, if there are any. -/
def fractionPart : List Char → Option (List Char × List Char)
  | '.' :: c :: rest =>
    if isDigit c then some (c :: rest.takeWhile isDigit, rest.dropWhile isDigit) else none
  | _ => none

/-- The exponent, if there is one. -/
def exponentPart : List Char → Option (Int × List Char)
  | c :: rest =>
    if c == 'e' || c == 'E' then
      let (negative, body) := Text.sign rest
      let digits := body.takeWhile isDigit
      if digits.isEmpty then none
      else
        let size : Int := Text.ofDigits (digits.map (·.toNat - '0'.toNat))
        some (if negative then -size else size, body.dropWhile isDigit)
    else none
  | [] => none

def digitsValue (cs : List Char) : Nat := Text.ofDigits (cs.map (·.toNat - '0'.toNat))

/-- A number after its sign: an integer unless it has a fraction or an exponent. -/
def parseMagnitude (negative : Bool) (cs : List Char) :
    Option (Except ParseError (Json × List Char)) := do
  let (whole, rest) ← integerPart cs
  let (part, isFloat, rest) :=
    match fractionPart rest with
    | some (part, rest) => (part, true, rest)
    | none => ([], false, rest)
  match exponentPart rest with
  | some (e, rest) =>
    return .ok (float (Binary64.ofDecimal negative (digitsValue (whole ++ part))
      (e - part.length)), rest)
  | none =>
    if isFloat then
      return .ok (float (Binary64.ofDecimal negative (digitsValue (whole ++ part))
        (-(part.length : Int))), rest)
    else if Text.integerDigitLimit < whole.length then
      return .error (.integerTooLong whole.length)
    else
      let n : Int := digitsValue whole
      return .ok (int (if negative then -n else n), rest)

def parseNumber (cs : List Char) : Parsed Json :=
  let parsed :=
    match cs with
    | '-' :: rest => parseMagnitude true rest
    | _ => parseMagnitude false cs
  parsed.getD (fail .value cs)

/-- Drops `word` from the front, if it stands there. -/
def dropWord? : List Char → List Char → Option (List Char)
  | [], cs => some cs
  | w :: ws, c :: cs => if w == c then dropWord? ws cs else none
  | _ :: _, [] => none

/-- The words that stand for a value. -/
def constants : List (String × Json) :=
  [("null", null), ("true", bool true), ("false", bool false), ("NaN", float Binary64.nan),
    ("Infinity", float (Binary64.infinity false)), ("-Infinity", float (Binary64.infinity true))]

def parseConstant? (cs : List Char) : Option (Json × List Char) :=
  constants.findSome? fun (word, v) => (dropWord? word.toList cs).map (v, ·)

mutual
/-- A value at the front of a text without leading blanks. -/
def parseValue : Nat → List Char → Parsed Json
  | 0, cs => fail .value cs
  | fuel + 1, cs =>
    match cs with
    | '"' :: _ => (parseString fuel cs).map fun (s, rest) => (str s, rest)
    | '[' :: rest =>
      match skip rest with
      | ']' :: rest => .ok (arr [], rest)
      | rest => (parseItems fuel rest).map fun (items, rest) => (arr items, rest)
    | '\x7b' :: rest =>
      match skip rest with
      | '\x7d' :: rest => .ok (obj [], rest)
      | rest => (parseMembers fuel [] rest).map fun (members, rest) => (obj members, rest)
    | _ =>
      match parseConstant? cs with
      | some (v, rest) => .ok (v, rest)
      | none => parseNumber cs

/-- The items of an array up to its closing bracket. -/
def parseItems : Nat → List Char → Parsed (List Json)
  | 0, cs => fail .value cs
  | fuel + 1, cs =>
    match parseValue fuel cs with
    | .error e => .error e
    | .ok (v, rest) =>
      match skip rest with
      | ']' :: rest => .ok ([v], rest)
      | ',' :: rest => (parseItems fuel (skip rest)).map fun (items, rest) => (v :: items, rest)
      | rest => fail .comma rest

/-- The members of an object up to its closing brace, after those in `acc`. -/
def parseMembers : Nat → Members → List Char → Parsed Members
  | 0, _, cs => fail .value cs
  | fuel + 1, acc, cs =>
    match cs with
    | '"' :: _ =>
      match parseString fuel cs with
      | .error e => .error e
      | .ok (key, rest) =>
        match skip rest with
        | ':' :: rest =>
          match parseValue fuel (skip rest) with
          | .error e => .error e
          | .ok (v, rest) =>
            match skip rest with
            | '\x7d' :: rest => .ok (Members.insert acc key v, rest)
            | ',' :: rest => parseMembers fuel (Members.insert acc key v) (skip rest)
            | rest => fail .comma rest
        | rest => fail .colon rest
    | _ => fail .propertyName cs
end

/-- The document that a text is. -/
def parse (cs : List Char) : Except ParseError Json :=
  match cs with
  | '﻿' :: _ => .error (.flaw .mark cs.length)
  | _ =>
    match parseValue (2 * cs.length + 2) (skip cs) with
    | .error e => .error e
    | .ok (v, rest) =>
      match skip rest with
      | [] => .ok v
      | rest => .error (.flaw .extra rest.length)

end ShaderFlow.Json
