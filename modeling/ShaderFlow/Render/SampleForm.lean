import ShaderFlow.Json.Coerce
import ShaderFlow.Render.SampleType
import ShaderFlow.Text.Utf8

set_option autoImplicit false

/-
A name means one type of samples, or is compound: it has types between commas, which make a record,
and counts of how often a type is repeated. A record is given as an object as well, by the names and
the forms of its fields.
-/

namespace ShaderFlow

/-- How often a type in a compound name is repeated: so many times, or along so many axes. -/
inductive Repetition where
  | times (n : Nat)
  | along (axes : List Nat)
  deriving DecidableEq, Inhabited

namespace Repetition

def trimmed (cs : List Char) : List Char := Text.trimBy (· == ' ') cs

/-- A natural number, which begins with a zero only if it is zero. -/
def number? (word : List Char) : Option Nat :=
  let n := Text.ofDigits (word.map (·.toNat - '0'.toNat))
  let padded := word.head? == some '0' && decide (n ≠ 0)
  if word.isEmpty || !word.all Char.isDigit || padded then none else some n

/-- The numbers between commas. One comma may stand at the end. -/
def numbers? (cs : List Char) : Option (List Nat) :=
  let words := ((String.ofList cs).splitOn ",").map fun word => trimmed word.toList
  let words := if words.getLast? = some [] then words.dropLast else words
  words.mapM number?

/-- A number, or several of them with a comma behind or between them. -/
def readBare? (cs : List Char) : Option Repetition :=
  if cs.contains ',' then (numbers? cs).map along else (number? cs).map times

/-- Reads what may have brackets around it. Nothing in brackets is no axis. -/
def read? (cs : List Char) : Option Repetition :=
  match trimmed cs with
  | '(' :: rest =>
    if rest.getLast? = some ')' then
      match trimmed rest.dropLast with
      | [] => some (along [])
      | inner => readBare? inner
    else none
  | bare => readBare? bare

/-- The failure of counts that no type can have. -/
def refused {α : Type} : Except Error α := .error (.misuse .value "no count of samples")

/-- A type whose samples are repeated along axes. Those that are not there at all have no type. -/
def spread (field : SampleField) (axes : List Nat) : Except Error SampleField :=
  let field := { field with axes }
  if axes.any (decide <| SampleType.sizeLimit ≤ ·) ||
      decide (SampleType.sizeLimit ≤ field.byteCount) then
    refused
  else if field.repeats = 0 then .ok { type := .raw 0 }
  else .ok field

/-- A repeated type. One of no length gets the number as its length, and once is not repeated. -/
def repeated (repetition : Repetition) (field : SampleField) : Except Error SampleField :=
  match field.type, repetition with
  | .packed, _ => SampleType.unknown
  | .text _ 0, along _ | .raw 0, along _ => refused
  | .text words 0, times n =>
    if n < SampleType.sizeLimit then .ok { field with type := .text words n } else refused
  | .raw 0, times n => .ok { field with type := .raw n }
  | _, times n => if n = 1 then .ok field else spread field [n]
  | _, along [] => .ok field
  | _, along axes => spread field axes

end Repetition

/-- A piece of a compound name. -/
structure FormPiece where
  /-- Whether a mark says that the highest byte is stored first. -/
  highFirst : Bool
  repetition : Option Repetition
  code : List Char
  deriving DecidableEq, Inhabited

namespace FormPiece

def isOrderMark (c : Char) : Bool := c == '<' || c == '>' || c == '=' || c == '|'

/-- Takes a character off the front if it is of a kind. -/
def takeIf (kind : Char → Bool) : List Char → List Char × List Char
  | c :: rest => if kind c then ([c], rest) else ([], c :: rest)
  | [] => ([], [])

def isCountChar (c : Char) : Bool := c == ' ' || c == ',' || c.isDigit

/-- The count at the front of a piece, with all its blanks. -/
def takeCount (cs : List Char) : List Char × List Char :=
  let blanks := cs.takeWhile (· == ' ')
  let (opened, rest) := takeIf (· == '(') (cs.drop blanks.length)
  let ns := rest.takeWhile isCountChar
  let (closed, rest) := takeIf (· == ')') (rest.drop ns.length)
  let behind := rest.takeWhile (· == ' ')
  (blanks ++ opened ++ ns ++ closed ++ behind, rest.drop behind.length)

/-- The code at the front of a piece, with a unit of time in brackets. -/
def takeCode (cs : List Char) : List Char × List Char :=
  let word := cs.takeWhile fun c => c.isAlphanum || c == '.' || c == '?'
  let rest := cs.drop word.length
  match rest with
  | '[' :: behind =>
    let inner := behind.takeWhile fun c => c.isAlphanum || c == '.' || c == ','
    match behind.drop inner.length with
    | ']' :: after => (word ++ '[' :: inner ++ [']'], after)
    | _ => (word, rest)
  | rest => (word, rest)

/-- The failure of a compound name that is not well formed. -/
def malformed {α : Type} : Except Error α := .error (.misuse .value "no form of samples")

/-- A mark of the byte order, of which two mean the same. -/
def orderOf (mark : List Char) : List Char := if mark = ['='] then ['<'] else mark

/-- A piece from its parts: a mark before its count, the count, one behind it, and the code. Two
marks have to agree. -/
def make (first count second code : List Char) : Except Error FormPiece := do
  if !first.isEmpty && !second.isEmpty && orderOf first != orderOf second then malformed
  let highFirst := (if second.isEmpty then first else second) == ['>']
  if count.isEmpty then return { highFirst, repetition := none, code }
  match Repetition.read? count with
  | some repetition => return { highFirst, repetition, code }
  | none => throw (.misuse .grammar "no count")

/-- What is behind a piece: the rest of the name, and whether a comma stands before it. -/
def behind (cs : List Char) : Except Error (List Char × Bool) :=
  match cs.dropWhile Text.isBlank with
  | [] => .ok ([], false)
  | ',' :: rest => .ok (rest.dropWhile Text.isBlank, true)
  | _ => malformed

/-- The pieces of a compound name, and whether there is a comma behind one of them. Each but the
first begins behind a comma, so that a name has no more pieces than characters. -/
def scan : Nat → List Char → Except Error (List FormPiece × Bool)
  | 0, _ | _ + 1, [] => .ok ([], false)
  | fuel + 1, cs => do
    let (first, rest) := takeIf isOrderMark cs
    let (count, rest) := takeCount rest
    let (second, rest) := takeIf isOrderMark rest
    let (code, rest) := takeCode rest
    let (rest, comma) ← behind rest
    let piece ← make first count second code
    let (pieces, more) ← scan fuel rest
    return (piece :: pieces, comma || more)

/-- Whether nothing is said in a piece. -/
def isEmpty (piece : FormPiece) : Bool :=
  !piece.highFirst && piece.repetition.isNone && piece.code.isEmpty

def field (piece : FormPiece) : Except Error SampleField := do
  let mark := if piece.highFirst then ['>'] else []
  let field ← SampleField.read (mark ++ piece.code)
  match piece.repetition with
  | some repetition => repetition.repeated field
  | none => return field

end FormPiece

namespace SampleForm

/-- Whether a comma stands outside square brackets, of which `depth` are open. -/
def hasComma (depth : Int) : List Char → Bool
  | [] => false
  | ',' :: rest => depth == 0 || hasComma depth rest
  | '[' :: rest => hasComma (depth + 1) rest
  | ']' :: rest => hasComma (depth - 1) rest
  | _ :: rest => hasComma depth rest

/-- Whether a name is compound: it has a comma, or begins with a count. -/
def isCompound (cs : List Char) : Bool :=
  let body := match cs with
    | c :: rest => if FormPiece.isOrderMark c && !rest.isEmpty then rest else cs
    | [] => []
  let counted := match body with
    | '(' :: ')' :: _ => true
    | c :: _ => c.isDigit
    | [] => false
  counted || hasComma 0 cs

/-- A record of fields, in which texts of any length have no place. -/
def ofFields (fields : List SampleField) : Except Error SampleForm :=
  if fields.any (·.type == .packed) then SampleType.unknown else .ok (record fields)

/-- The form of a compound name. A piece at its end in which nothing is said does not count. -/
def ofPieces (pieces : List FormPiece) : Except Error SampleForm := do
  let pieces := if pieces.getLast?.any FormPiece.isEmpty then pieces.dropLast else pieces
  if pieces.isEmpty then SampleType.unknown
  ofFields (← pieces.mapM FormPiece.field)

/-- The form that a name means. -/
def ofName (name : String) : Except Error SampleForm := do
  if (Text.utf8Encode? name).isNone then throw .unencodable
  let cs := name.toList
  if isCompound cs then
    match ← FormPiece.scan cs.length cs with
    | ([piece], false) => return single (← piece.field)
    | (pieces, _) => ofPieces pieces
  else return single (← SampleField.read cs)

/-- The fields that the form of a field stands for; a record in a record adds its own ones. -/
def fieldsOf : Json → Except Error (List SampleField)
  | .str name => do
    match ← ofName name with
    | single field => return [field]
    | record fields => return fields
  | v => v.refuse "a name of a form"

/-- The fields of pairs of names and forms, behind those of which the names are `taken`. -/
def namedFields (taken : List String) : List (Json × Json) → Except Error (List SampleField)
  | [] => .ok []
  | (name, form) :: rest => do
    let fields ← fieldsOf form
    match name with
    | .str name =>
      if taken.contains name then throw (.misuse .value "two fields of one name")
      return fields ++ (← namedFields (name :: taken) rest)
    | v => v.refuse "a name of a field"

/-- The record of an object that is neither names nor forms: it has no members, because none of them
can be a field. -/
def ofMembers : Members → Except Error SampleForm
  | [] => .ok (record [])
  | (_, .arr _) :: _ | (_, .str _) :: _ | (_, .obj _) :: _ => throw (.misuse .value "no field")
  | (_, v) :: _ => v.refuse "a field"

/-- The form that a value means: a name, or the names and the forms of the fields of a record. -/
def read : Json → Except Error SampleForm
  | .str name => ofName name
  | .arr [] => .ok (record [])
  | .obj members => do
    match members.lookup "names", members.lookup "formats" with
    | some names, some forms =>
      let names ← names.items
      let forms ← forms.items
      if forms.length < names.length then throw (.misuse .value "more names than forms")
      ofFields (← namedFields [] (names.zip forms))
    | _, _ => ofMembers members
  | v => v.refuse "a form of samples"

end SampleForm

end ShaderFlow
