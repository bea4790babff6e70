import ShaderFlow.Error
import ShaderFlow.Text.Numeral

set_option autoImplicit false

namespace ShaderFlow.Json

def ofFlag (b : Bool) : Int := if b then 1 else 0

/-- The name of a value's form, as messages give it. -/
def formName : Json → String
  | null => "NoneType"
  | bool _ => "bool"
  | int _ => "int"
  | float _ => "float"
  | str _ => "str"
  | arr _ => "list"
  | obj _ => "dict"

/-- The failure of a value whose form rules out what is done with it. -/
def refuse {α : Type} (v : Json) (reason : String) : Except Error α :=
  .error (.misuse .shape s!"'{v.formName}' object is not {reason}")

/-- The float nearest to an integer. -/
def floatOfInt (n : Int) : Except Error Binary64 :=
  match Binary64.ofInt? n with
  | some x => .ok x
  | none => .error (.misuse .range "int too large to convert to float")

/-- A value read as a float. -/
def toNumber : Json → Except Error Binary64
  | bool b => floatOfInt (ofFlag b)
  | int n => floatOfInt n
  | float x => .ok x
  | str s =>
    match Text.readNumber s with
    | some x => .ok x
    | none => .error (.misuse .value s!"could not convert string to float: {Text.quoted s}")
  | v => .error (.misuse .shape
      s!"float() argument must be a string or a real number, not '{v.formName}'")

/-- A value read as a float. NaN written as a text is told apart from all others by `tag`. -/
def toOwnNumber (tag : Nat) (v : Json) : Except Error Binary64 := do
  let x ← v.toNumber
  match v with
  | str _ => return x.own tag
  | _ => return x

/-- The message about an integer with too many digits. -/
def tooLongMessage (digits : Nat) : String :=
  s!"Exceeds the limit ({Text.integerDigitLimit} digits) for integer string conversion: " ++
    s!"value has {digits} digits; use sys.set_int_max_str_digits() to increase the limit"

/-- The least integer with too many digits to be written. -/
def integerBound : Nat := Nat.pow 10 Text.integerDigitLimit

/-- Refuses an integer with too many digits to be written. -/
def checkWritable : Json → Except Error Unit
  | int n =>
    if n.natAbs < integerBound then .ok ()
    else .error (.misuse .value "an integer has too many digits to be written")
  | _ => .ok ()

/-- The most characters that a message shows of a text that is no integer. -/
def shownNumeralLimit : Nat := 200

/-- A text that is no integer, as messages show it. -/
def shownNumeral (s : String) : String :=
  String.ofList ((Text.quoted s).toList.take shownNumeralLimit)

/-- A value read as an integer; floats lose their fraction. -/
def toInteger : Json → Except Error Int
  | bool b => .ok (ofFlag b)
  | int n => .ok n
  | float x =>
    match x.truncate? with
    | some n => .ok n
    | none =>
      if x.isNan then .error (.misuse .value "cannot convert float NaN to integer")
      else .error (.misuse .range "cannot convert float infinity to integer")
  | str s =>
    match Text.readInteger s with
    | .ok n => .ok n
    | .error .invalid =>
      .error (.misuse .value ("invalid literal for int() with base 10: " ++ shownNumeral s))
    | .error (.tooLong digits) => .error (.misuse .value (tooLongMessage digits))
  | v => .error (.misuse .shape
      s!"int() argument must be a string, a bytes-like object or a real number, not '{v.formName}'")

/-- A value used as a term of a sum, where texts are not read. -/
def toSummand : Json → Except Error Binary64
  | v@(int _) | v@(bool _) | v@(float _) => v.toNumber
  | v => .error (.misuse .shape
      s!"unsupported operand type(s) for +: 'float' and '{v.formName}'")

/-- The items of a value in turn: of a list its items, of a text its characters, of an object its
keys. -/
def items : Json → Except Error (List Json)
  | arr vs => .ok vs
  | str s => .ok ((Text.symbols s).map fun x => str (Text.ofSymbols [x]))
  | obj members => .ok (members.map fun m => str m.1)
  | v => v.refuse "iterable"

/-- The two items of a pair. -/
def pair (v : Json) : Except Error (Json × Json) :=
  match v.items with
  | .ok [x, y] => .ok (x, y)
  | .ok (_ :: _ :: _) => .error (.misuse .value "too many values to unpack (expected 2)")
  | .ok vs =>
    .error (.misuse .value s!"not enough values to unpack (expected 2, got {vs.length})")
  | .error _ => .error (.misuse .shape s!"cannot unpack non-iterable {v.formName} object")

/-- The item at an index. -/
def item (v : Json) (index : Nat) : Except Error Json :=
  match v with
  | arr vs =>
    match vs[index]? with
    | some x => .ok x
    | none => .error (.misuse .item "list index out of range")
  | str s =>
    match (Text.symbols s)[index]? with
    | some x => .ok (str (Text.ofSymbols [x]))
    | none => .error (.misuse .item "string index out of range")
  | obj _ => .error (.misuse .member (toString index))
  | v => v.refuse "subscriptable"

/-- The member of an object that has to be there. -/
def member (v : Json) (key : String) : Except Error Json :=
  match v with
  | obj members =>
    match Members.get? members key with
    | some x => .ok x
    | none => .error (.misuse .member (Text.quoted key))
  | arr _ => .error (.misuse .shape "list indices must be integers or slices, not str")
  | str _ => .error (.misuse .shape "string indices must be integers, not 'str'")
  | v => v.refuse "subscriptable"

/-- Whether a value has something under a key: an object a member, a list an item like it, and a
text a part like it. -/
def has (v : Json) (key : String) : Except Error Bool :=
  match v with
  | obj members => .ok (Members.get? members key).isSome
  | arr items => .ok (items.any fun item => item.alike (str key))
  | str s => .ok (decide (1 < (s.splitOn key).length))
  | v => .error (.misuse .shape s!"argument of type '{v.formName}' is not iterable")

/-- The members of an object. -/
def membersOf : Json → Except Error Members
  | obj members => .ok members
  | v => .error (.misuse .operation s!"'{v.formName}' object has no attribute 'items'")

/-- Whether a value is more than nothing: not null, zero, empty or false. -/
def isTruthy : Json → Bool
  | null => false
  | bool b => b
  | int n => n != 0
  | float x => !x.isZero
  | str s => s != ""
  | arr vs => !vs.isEmpty
  | obj members => !members.isEmpty

/-- A value that can name something: lists and objects cannot. -/
def asLabel : Json → Except Error Json
  | v@(arr _) | v@(obj _) => .error (.misuse .shape s!"unhashable type: '{v.formName}'")
  | v => .ok v

end ShaderFlow.Json
