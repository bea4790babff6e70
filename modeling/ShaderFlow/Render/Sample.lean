import ShaderFlow.Number.Arithmetic
import ShaderFlow.Render.Calendar
import ShaderFlow.Render.SampleForm
import ShaderFlow.Render.WideNumeral

set_option autoImplicit false

namespace ShaderFlow

inductive Sample where
  | int (n : Int)
  | float (x : Wide)
  | complex (real imaginary : Wide)
  | value (v : Json)
  /-- What is only ever stored. -/
  | stored (bytes : List UInt8)
  /-- The bytes of a text of any length. -/
  | packed (bytes : List UInt8)
  deriving Inhabited

namespace Sample

/-- The bytes of a number, the lowest first. -/
def littleEndian : Nat → Nat → List UInt8
  | 0, _ => []
  | count + 1, n => n.toUInt8 :: littleEndian count (n / 256)

/-- The bytes of a number, in one order or the other. -/
def ordered (highFirst : Bool) (count n : Nat) : List UInt8 :=
  if highFirst then (littleEndian count n).reverse else littleEndian count n

/-- How many bytes an integer takes. -/
def integerBytes : SampleType → Nat
  | .unsigned count | .signed count => count
  | .span _ | .moment _ => 8
  | _ => 1

/-- How a float is stored. -/
def floatForm : SampleType → FloatForm
  | .float form | .complex form => form
  | _ => .double

/-- The bytes of a sample as a field stores it. -/
def bytes (field : SampleField) (s : Sample) : List UInt8 :=
  let form := floatForm field.type
  let float (x : Wide) : List UInt8 := ordered field.highFirst form.byteCount (form.bits x)
  match s with
  | int n =>
    let count := integerBytes field.type
    ordered field.highFirst count (n % Nat.pow 2 (8 * count)).toNat
  | .float x => float x
  | complex x y => float x ++ float y
  | value _ => []
  | stored bytes | packed bytes => bytes

/-- An integer clipped to a byte. -/
def clip (n : Int) : UInt8 := (max 0 (min n 255)).toNat.toUInt8

/-- A float clipped to a byte; fractions are dropped. -/
def clipFloat (x : Wide) : UInt8 :=
  match x.magnitude with
  | .nan => 0
  | .infinite => if x.negative then 0 else 255
  | .finite .. => clip (x.truncate?.getD 0)

/-- The lowest byte of a float that fits a word of 32 bits; fractions are dropped. -/
def lowByte (x : Wide) : UInt8 :=
  match x.truncate? with
  | some n => if -(Nat.pow 2 31 : Int) ≤ n ∧ n < Nat.pow 2 31 then (n % 256).toNat.toUInt8 else 0
  | none => 0

/-- The sample clipped to a byte. A value has to be a number for that, and of a complex number the
real part counts, which is not clipped beside one that is NaN. -/
def toByte : Sample → Except Error UInt8
  | int n => .ok (clip n)
  | float x => .ok (clipFloat x)
  | complex x y => .ok (if y.isNan then lowByte x else clipFloat x)
  | value v => do
    match ← Number.ofJson v with
    | .flag b => return clip (Json.ofFlag b)
    | .int n => return clip n
    | .float x => return clipFloat (.ofFloat x)
  | stored _ | packed _ => .error .unclippable

/-- An integer that has to lie within bounds. -/
def bounded (low high n : Int) : Except Error Sample :=
  if low ≤ n ∧ n < high then .ok (int n) else .error (.misuse .range "out of bounds")

/-- A value read as a float; null is not a number. -/
def floatOf : Json → Except Error Wide
  | .null => .ok .nan
  | v => return .ofFloat (← v.toNumber)

/-- A value read as a float of more than double precision. -/
def longFloatOf : Json → Except Error Wide
  | .int n => do
    Json.checkWritable (.int n)
    return .ofInt n
  | .str s =>
    match Text.utf8Encode? s, Wide.ofLongNumeral? s with
    | none, _ => .error .unencodable
    | some _, some x => .ok x
    | some _, none => .error (.misuse .value s!"no float: {Text.quoted s}")
  | v => floatOf v

/-- A value read as a real and an imaginary part. -/
def complexOf : Json → Except Error (Wide × Wide)
  | .null => .ok (.nan, .nan)
  | .str s =>
    match Wide.ofComplexNumeral? s with
    | some z => .ok z
    | none => .error (.misuse .value s!"no complex number: {Text.quoted s}")
  | v => return (← floatOf v, .zero)

/-- The least integer in a signed word, which stands for no time at all. -/
def noTime : Int := -(Nat.pow 2 63 : Int)

/-- A count of units of time. -/
def timeOf (n : Int) : Except Error Sample := bounded noTime (Nat.pow 2 63) n

/-- Whether a text says that there is no time. -/
def saysNoTime (s : String) : Bool := s == "" || s.toLower == "nat"

/-- A value read as a span of time. Texts out of range are cut to it. -/
def spanOf : Json → Except Error Sample
  | .null => .ok (int noTime)
  | .bool b => timeOf (Json.ofFlag b)
  | .int n => timeOf n
  | .str s =>
    match Text.utf8Encode? s, saysNoTime s, Text.leadingInteger? s.toList with
    | none, _, _ => .error .unencodable
    | some _, true, _ => .ok (int noTime)
    | some _, false, some (n, []) => .ok (int (Text.clampWord n))
    | some _, false, _ => .error (.misuse .value "no span of time")
  | _ => .error (.misuse .value "no span of time")

/-- A value read as a point in time. Integers and dates count steps, so there have to be any. -/
def momentOf (step : Option TimeStep) (v : Json) : Except Error Sample :=
  match v, step with
  | .null, _ => .ok (int noTime)
  | .bool b, some _ => timeOf (Json.ofFlag b)
  | .int n, some _ => timeOf n
  | .str s, _ =>
    match Text.utf8Encode? s, saysNoTime s, CalendarTime.read? s, step with
    | none, _, _, _ => .error .unencodable
    | some _, true, _, _ => .ok (int noTime)
    | some _, false, some (t, _), some step => .ok (int (t.count step))
    | some _, false, some _, none => .error (.misuse .shape "no step to count")
    | some _, false, none, _ => .error (.misuse .value "no point in time")
  | _, _ => .error (.misuse .value "no point in time")

/-- The codes of the characters of a value's text. Texts of bytes are plain ASCII. -/
def codesOf (words : Bool) (v : Json) : Except Error (List Nat) := do
  v.checkWritable
  let codes := (Text.symbols v.bare).map fun
    | .char c => c.toNat
    | .half n => n
  if words || codes.all (decide <| · < 0x80) then return codes else throw .unencodable

/-- A text of a length: longer ones are cut, and zeros fill up shorter ones. -/
def textOf (highFirst words : Bool) (length : Nat) (v : Json) : Except Error Sample := do
  let codes := (← codesOf words v).take length
  let width := if words then 4 else 1
  return stored (codes.flatMap (ordered highFirst width) ++
    List.replicate (width * (length - codes.length)) 0)

/-- The bytes of a value's text. -/
def packedOf (v : Json) : Except Error Sample := do
  v.checkWritable
  match Text.utf8Encode? v.bare with
  | some bytes => return packed bytes
  | none => throw .unencodable

def ofJson (field : SampleField) (v : Json) : Except Error Sample :=
  match field.type with
  | .truth => .ok (int (Json.ofFlag v.isTruthy))
  | .unsigned count => do bounded 0 (Nat.pow 2 (8 * count)) (← v.toInteger)
  | .signed count => do
    bounded (-(Nat.pow 2 (8 * count - 1) : Int)) (Nat.pow 2 (8 * count - 1)) (← v.toInteger)
  | .float form => do
    return float (form.round (← if form = .extended then longFloatOf v else floatOf v))
  | .complex form => do
    let (x, y) ← complexOf v
    return complex (form.round x) (form.round y)
  | .value => .ok (value v)
  | .text words length => textOf field.highFirst words length v
  | .letter => textOf false false 1 v
  | .packed => packedOf v
  | .span _ => spanOf v
  | .moment step => momentOf step v
  | .raw _ => v.refuse "like bytes"

/-- The finest unit in which some values write points in time. -/
def finestUnit? (vs : List Json) : Option TimeUnit :=
  vs.foldl (fun best v =>
    match v with
    | .str s =>
      match best, CalendarTime.read? s with
      | some unit, some (_, finest) =>
        some (if unit.fineness < finest.fineness then finest else unit)
      | none, some (_, finest) => some finest
      | best, none => best
    | _ => best) none

/-- A type for some values: texts of no length get that of the longest one, and points in time of no
unit the finest one in which they are written. -/
def typeFor (type : SampleType) (vs : List Json) : SampleType :=
  match type with
  | .text words 0 => .text words (vs.foldl (fun n v => max n (Text.symbols v.bare).length) 1)
  | .moment none => .moment ((finestUnit? vs).map ({ unit := · }))
  | type => type

/-- A field for some values. One that leaves something open is left with no byte order of its own.
-/
def fieldFor (field : SampleField) (vs : List Json) : SampleField :=
  if field.type.isOpen && field.axes.isEmpty then { type := typeFor field.type vs } else field

/-- A form for some values. Records leave nothing open. -/
def formFor (form : SampleForm) (vs : List Json) : SampleForm :=
  match form with
  | .single field => .single (fieldFor field vs)
  | .record fields => .record fields

/-- The samples that values are read as. Each field of a record takes the whole value. -/
def ofValues (form : SampleForm) (vs : List Json) : Except Error (List Sample) :=
  match form with
  | .single field => do
    let samples ← vs.mapM (ofJson field)
    return samples.flatMap (List.replicate field.repeats)
  | .record fields => vs.mapM fun v => do
    let parts ← fields.mapM fun field => do
      let s ← ofJson field v
      return (List.replicate field.repeats (bytes field s)).flatten
    return stored parts.flatten

/-- The most bytes of a text that is stored where its sample is. -/
def shortLimit : Nat := 15

/-- The most bytes of a text whose length takes a byte. -/
def mediumLimit : Nat := 255

/-- Texts of any length take sixteen bytes each. Short ones are stored there, with their length and
a mark in the last byte. Longer ones are stored elsewhere behind their length, one after the other
from `place` on, and what is stored here is where, how long they are, and another mark. -/
def packedBytes : Nat → List Sample → List UInt8
  | _, [] => []
  | place, s :: rest =>
    let bytes := match s with
      | packed bytes => bytes
      | _ => []
    let n := bytes.length
    if n ≤ shortLimit then
      bytes ++ List.replicate (shortLimit - n) 0 ++ [(0x60 + n).toUInt8] ++ packedBytes place rest
    else
      let isLong := decide (mediumLimit < n)
      let start := place + (if isLong then 8 else 1)
      littleEndian 8 start ++ littleEndian 7 n ++ [if isLong then 0x50 else 0x40] ++
        packedBytes (start + n) rest

end Sample

end ShaderFlow
