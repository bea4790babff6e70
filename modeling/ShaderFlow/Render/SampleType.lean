import ShaderFlow.Error
import ShaderFlow.Render.FloatForm
import ShaderFlow.Render.TimeStep

set_option autoImplicit false

namespace ShaderFlow

/-- How a raster stores its samples. -/
inductive SampleType where
  | truth
  | unsigned (bytes : Nat)
  | signed (bytes : Nat)
  | float (form : FloatForm)
  /-- A real and an imaginary part. -/
  | complex (form : FloatForm)
  /-- Values as they are given. -/
  | value
  /-- Texts of one length, by a byte or a word of four bytes a character. Of no length are those
  that are as long as the longest one. -/
  | text (words : Bool) (length : Nat)
  /-- Single characters of a byte. Texts are lists of them. -/
  | letter
  /-- Texts of any length. -/
  | packed
  /-- Spans of time, counted in steps if there are any. -/
  | span (step : Option TimeStep)
  /-- Points in time, counted in steps if there are any. -/
  | moment (step : Option TimeStep)
  /-- Bytes, which no value stands for. -/
  | raw (length : Nat)
  deriving DecidableEq, Inhabited

namespace SampleType

/-- All types with the letters they go by. -/
def lettered : List (SampleType × List Char) :=
  [(truth, ['?']),
    (unsigned 1, ['B']), (unsigned 2, ['H']), (unsigned 4, ['I']),
    (unsigned 8, ['L', 'Q', 'P', 'N']),
    (signed 1, ['b']), (signed 2, ['h']), (signed 4, ['i']),
    (signed 8, ['l', 'q', 'p', 'n']),
    (float .half, ['e']), (float .single, ['f']), (float .double, ['d']), (float .extended, ['g']),
    (complex .single, ['F']), (complex .double, ['D']), (complex .extended, ['G']),
    (value, ['O']),
    (text true 0, ['U']), (text false 0, ['S', 'a']),
    (letter, ['c']), (packed, ['T']),
    (span none, ['m']), (moment none, ['M']),
    (raw 0, ['V'])]

/-- All types with the names they go by. -/
def named : List (SampleType × List String) :=
  [(truth, ["bool", "bool_"]),
    (unsigned 1, ["uint8", "ubyte"]),
    (unsigned 2, ["uint16", "ushort"]),
    (unsigned 4, ["uint32", "uintc"]),
    (unsigned 8, ["uint64", "uint", "ulong", "ulonglong", "uintp"]),
    (signed 1, ["int8", "byte"]),
    (signed 2, ["int16", "short"]),
    (signed 4, ["int32", "intc"]),
    (signed 8, ["int64", "int", "int_", "long", "longlong", "intp"]),
    (float .half, ["float16", "half"]),
    (float .single, ["float32", "single"]),
    (float .double, ["float64", "double", "float"]),
    (float .extended, ["float128", "longdouble"]),
    (complex .single, ["complex64", "csingle"]),
    (complex .double, ["complex128", "cdouble", "complex"]),
    (complex .extended, ["complex256", "clongdouble"]),
    (value, ["object", "object_"]),
    (text true 0, ["str", "str_", "unicode"]),
    (text false 0, ["bytes", "bytes_"]),
    (raw 0, ["void"])]

/-- The type of a key in a table of types. -/
def lookUp? {α : Type} [BEq α] (table : List (SampleType × List α)) (key : α) : Option SampleType :=
  (table.find? fun entry => entry.2.contains key).map (·.1)

/-- Sizes of types are counted in signed words of 32 bits. -/
def sizeLimit : Nat := Nat.pow 2 31

/-- The type of a letter with the count of its bytes, or of its characters. -/
def sized? (c : Char) (size : Nat) : Option SampleType :=
  match c, size with
  | 'U', n => if 4 * n < sizeLimit then some (text true n) else none
  | 'S', n | 'a', n => some (text false n)
  | 'V', n => some (raw n)
  | 'b', 1 => some truth
  | 'u', n => if [1, 2, 4, 8].contains n then some (unsigned n) else none
  | 'i', n => if [1, 2, 4, 8].contains n then some (signed n) else none
  | 'f', 2 => some (float .half)
  | 'f', 4 => some (float .single)
  | 'f', 8 => some (float .double)
  | 'f', 16 => some (float .extended)
  | 'c', 8 => some (complex .single)
  | 'c', 16 => some (complex .double)
  | 'c', 32 => some (complex .extended)
  | 'O', 4 | 'O', 8 => some value
  | 'm', 8 => some (span none)
  | 'M', 8 => some (moment none)
  | _, _ => none

/-- The type that a code stands for. -/
def ofCode? : List Char → Option SampleType
  | [] => none
  | [c] => lookUp? lettered c
  | c :: size =>
    match Text.leadingInteger? size with
    | some (n, []) => if 0 ≤ n ∧ n < sizeLimit then sized? c n.toNat else none
    | _ => none

/-- The names of times, behind which their steps stand. -/
def times : List (String × (Option TimeStep → SampleType)) :=
  [("m8", span), ("M8", moment), ("timedelta64", span), ("datetime64", moment)]

/-- The failure of a name that means no type. -/
def unknown {α : Type} : Except Error α := .error (.misuse .shape "no sample type")

/-- The type of a code, or of a name as a whole. -/
def read (code name : List Char) : Except Error SampleType :=
  match times.find? fun entry => entry.1.toList.isPrefixOf code with
  | some (word, type) => return type (← TimeStep.read (code.drop word.length))
  | none =>
    match (ofCode? code).orElse fun _ => lookUp? named (String.ofList name) with
    | some type => .ok type
    | none => unknown

/-- Whether samples can be clipped to bytes. -/
def isClippable : SampleType → Bool
  | text .. | letter | packed | moment _ | raw _ => false
  | _ => true

/-- Whether values decide on what is left open: a length, or a unit of time. -/
def isOpen : SampleType → Bool
  | text _ 0 | raw 0 | span none | moment none => true
  | _ => false

/-- How many bytes a sample takes. -/
def byteCount : SampleType → Nat
  | truth | letter => 1
  | unsigned bytes | signed bytes => bytes
  | float form => form.byteCount
  | complex form => 2 * form.byteCount
  | value | span _ | moment _ => 8
  | text words length => (if words then 4 else 1) * length
  | packed => 16
  | raw length => length

end SampleType

/-- A type with its byte order. -/
structure SampleField where
  type : SampleType
  /-- Whether the highest byte is stored first. -/
  highFirst : Bool := false
  /-- The axes along which each sample is repeated. -/
  axes : List Nat := []
  deriving DecidableEq, Inhabited

namespace SampleField

/-- The type that a name means. -/
def read (name : List Char) : Except Error SampleField :=
  match name with
  | '>' :: code => return { type := ← SampleType.read code name, highFirst := true }
  | '<' :: code | '=' :: code | '|' :: code => return { type := ← SampleType.read code name }
  | code => return { type := ← SampleType.read code name }

/-- How often a sample is repeated. -/
def repeats (field : SampleField) : Nat := field.axes.foldl (· * ·) 1

/-- The bytes of all repetitions of a sample. -/
def byteCount (field : SampleField) : Nat := field.repeats * field.type.byteCount

end SampleField

/-- What a sample consists of. -/
inductive SampleForm where
  | single (field : SampleField)
  | record (fields : List SampleField)
  deriving DecidableEq, Inhabited

namespace SampleForm

/-- The axes along which each sample is repeated. -/
def axes : SampleForm → List Nat
  | single field => field.axes
  | record _ => []

end SampleForm

end ShaderFlow
