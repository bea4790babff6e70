import ShaderFlow.Path
import ShaderFlow.Render.Frame
import ShaderFlow.Text.Numeral

set_option autoImplicit false

/-
Still images are portable pixmaps: colors (`P3`, `P6`), grays (`P2`, `P5`) or bits (`P1`, `P4`),
whose samples are written as numerals or as bytes. They are read as opaque pixels of four bytes.
Pictures are written as `P6`, without their alpha channel.
-/

namespace ShaderFlow.Picture

def isBreak (b : UInt8) : Bool := (9 ≤ b && b ≤ 13) || b == 32

def endsLine (b : UInt8) : Bool := b == 10 || b == 13

/-- The next word, and what follows the blank that ends it. A comment, from a number sign to the end
of its line, counts as nothing at all, even within a word. -/
def nextWord : Bool → List UInt8 → List UInt8 → List UInt8 × List UInt8
  | _, word, [] => (word.reverse, [])
  | true, word, b :: rest => nextWord (!endsLine b) word rest
  | false, word, b :: rest =>
    if isBreak b then if word.isEmpty then nextWord false [] rest else (word.reverse, rest)
    else if b == 35 then nextWord true word rest
    else nextWord false (b :: word) rest

/-- The bytes that a numeral may have: digits, signs and underscores. -/
def isNumeral (b : UInt8) : Bool := (48 ≤ b && b ≤ 57) || b == 43 || b == 45 || b == 95

/-- The most bytes that a word may have. -/
def wordLimit : Nat := 10

def wordValue (word : List UInt8) : Except Error Int :=
  let refused : Error := .misuse .value "not a sample"
  if word.length ≤ wordLimit && word.all isNumeral then
    match Text.readInteger (String.ofList (word.map fun b => Char.ofNat b.toNat)) with
    | .ok n => .ok n
    | .error _ => .error refused
  else .error refused

/-- The next number, and what follows it. -/
def nextNumber (bytes : List UInt8) : Except Error (Int × List UInt8) := do
  let (word, rest) := nextWord false [] bytes
  return (← wordValue word, rest)

/-- Bytes without the comments among them. -/
def dropComments : Bool → List UInt8 → List UInt8
  | _, [] => []
  | true, b :: rest => dropComments (!endsLine b) rest
  | false, b :: rest => if b == 35 then dropComments true rest else b :: dropComments false rest

/-- How many bytes stand behind the last blank. -/
def openLength (bytes : List UInt8) : Nat := (bytes.reverse.takeWhile fun b => !isBreak b).length

/-- Samples written as numerals. -/
def plainSamples (limit : Nat) : Nat → List UInt8 → Except Error (List Nat)
  | 0, _ => .ok []
  | count + 1, bytes => do
    let (value, rest) ← nextNumber bytes
    if value < 0 ∨ (limit : Int) < value then throw (.misuse .value "sample out of range")
    return value.toNat :: (← plainSamples limit count rest)

/-- Samples of one byte, or of two with the high byte first; none when there are too few. -/
def byteSamples? (wide : Bool) : Nat → List UInt8 → Option (List Nat)
  | 0, _ => some []
  | count + 1, high :: rest =>
    if wide then
      match rest with
      | low :: rest => (byteSamples? wide count rest).map ((256 * high.toNat + low.toNat) :: ·)
      | [] => none
    else (byteSamples? wide count rest).map (high.toNat :: ·)
  | _, [] => none

/-- The integer nearest to a number, the even one of two. -/
def roundEven (x : Binary64) : Nat :=
  match x.view with
  | .finite false m q =>
    if 0 ≤ q then m * Nat.pow 2 q.toNat else Binary64.divNearest m (Nat.pow 2 (-q).toNat)
  | _ => 0

/-- A sample of a range that ends at `limit`, brought to a range that ends at `top`. What is still
more than a byte holds is cut. -/
def scale (limit top sample : Nat) : UInt8 :=
  let wide := Binary64.ofRatio false top 1
  (min 255 (roundEven ((Binary64.ofRatio false sample limit).mul wide))).toUInt8

/-- The gray of a bit. -/
def shade (isSet : Bool) : UInt8 := if isSet then 0 else 255

/-- Bits written as digits, with blanks anywhere between them. There may be more than needed, but
nothing else. -/
def plainBits (count : Nat) (bytes : List UInt8) : Except Error (List UInt8) :=
  let digits := (dropComments false bytes).filter fun b => !isBreak b
  if digits.all (fun b => b == 48 || b == 49) && count ≤ digits.length then
    .ok ((digits.take count).map fun b => shade (b == 49))
  else .error (.misuse .value "no bits")

/-- The bits of a byte, the highest first. -/
def bitsOf (b : UInt8) : List Bool := (List.range 8).map fun i => b.toNat.testBit (7 - i)

/-- Bits packed into bytes; each row starts with a new byte. -/
def packedBits (width : Nat) : Nat → List UInt8 → Except Error (List UInt8)
  | 0, _ => .ok []
  | height + 1, bytes => do
    let size := (width + 7) / 8
    if bytes.length < size then throw (.file .truncated "")
    let row := ((bytes.take size).flatMap bitsOf).take width
    return row.map shade ++ (← packedBits width height (bytes.drop size))

/-- Opaque pixels from grays, or from colors. -/
def opaquePixels (gray : Bool) : List UInt8 → List UInt8
  | v :: rest =>
    if gray then [v, v, v, 255] ++ opaquePixels gray rest
    else
      match rest with
      | g :: b :: more => [v, g, b, 255] ++ opaquePixels gray more
      | _ => []
  | [] => []

/-- What a pixel of a picture is made of. -/
inductive Tone where
  | bit
  | gray
  | color
  deriving DecidableEq

/-- What the first word of a picture says. -/
structure Form where
  tone : Tone
  plain : Bool

def Form.ofDigit? : UInt8 → Option Form
  | 49 => some ⟨.bit, true⟩
  | 50 => some ⟨.gray, true⟩
  | 51 => some ⟨.color, true⟩
  | 52 => some ⟨.bit, false⟩
  | 53 => some ⟨.gray, false⟩
  | 54 => some ⟨.color, false⟩
  | _ => none

/-- The samples of a picture. Those written as numerals may have anything behind them, unless it is
too long and no blank ends it. -/
def readSamples (form : Form) (limit count : Nat) (bytes : List UInt8) :
    Except Error (List Nat) :=
  if form.plain then
    let bytes := dropComments false bytes
    if wordLimit < openLength bytes then .error (.misuse .value "word too long")
    else plainSamples limit count bytes
  else
    match byteSamples? (255 < limit) count bytes with
    | some samples => .ok samples
    | none =>
      if limit = 255 ∨ (form.tone = .gray ∧ limit = 65535) then .error (.file .truncated "")
      else .error (.misuse .value "not enough samples")

/-- The most pixels that a picture may have. -/
def pixelLimit : Int := 178956970

/-- The size of a picture, if it can have one. -/
def checkSize (width height : Int) : Except Error Unit := do
  if width ≤ 0 ∨ height ≤ 0 then throw .unknownImage
  if pixelLimit < width * height then throw .imageTooLarge

/-- The largest sample, and what follows it. -/
def nextLimit (bytes : List UInt8) : Except Error (Nat × List UInt8) := do
  let (limit, bytes) ← nextNumber bytes
  if limit ≤ 0 ∨ 65535 < limit then throw (.misuse .value "no range of samples")
  return (limit.toNat, bytes)

/-- Reads the samples of grays or colors, after the largest one. Wide grays keep sixteen bits. -/
def readTones (form : Form) (limit count : Nat) (bytes : List UInt8) :
    Except Error (List UInt8) := do
  let isGray := form.tone == .gray
  let samples ← readSamples form limit (count * (if isGray then 1 else 3)) bytes
  let top := if isGray && decide (255 < limit) then 65535 else 255
  return opaquePixels isGray (samples.map (scale limit top))

/-- Reads what follows the first word: width, height, the largest sample unless these are bits, and
the samples. -/
def readBody (form : Form) (bytes : List UInt8) : Except Error Frame := do
  let (width, bytes) ← nextNumber bytes
  let (height, bytes) ← nextNumber bytes
  let pixels ← match form.tone with
    | .bit => do
      checkSize width height
      let (w, h) := (width.toNat, height.toNat)
      let grays ← if form.plain then plainBits (w * h) bytes else packedBits w h bytes
      pure (opaquePixels true grays)
    | _ => do
      let (limit, bytes) ← nextLimit bytes
      checkSize width height
      readTones form limit (width * height).toNat bytes
  return { width := width.toNat, height := height.toNat, components := 4, pixels }

/-- The frame of a picture file. -/
def read : List UInt8 → Except Error Frame
  | 80 :: digit :: rest =>
    match Form.ofDigit? digit, rest with
    | some form, [] => readBody form []
    | some form, b :: rest => if isBreak b then readBody form rest else .error .unknownImage
    | none, _ => .error .unknownImage
  | _ => .error .unknownImage

/-- The extensions that mean a portable pixmap. -/
def extensions : List String := [".ppm", ".pgm", ".pbm", ".pnm", ".pfm"]

/-- Pixels without their fourth bytes. -/
def dropAlpha : List UInt8 → List UInt8
  | r :: g :: b :: _ :: rest => r :: g :: b :: dropAlpha rest
  | _ => []

def headerBytes (f : Frame) : List UInt8 :=
  s!"P6\n{f.width} {f.height}\n255\n".toList.map fun c => c.toNat.toUInt8

/-- Extensions of formats that have no alpha channel and refuse it. -/
def alphaless : List String := [".jfif", ".jpe", ".jpg", ".jpeg", ".mpo", ".msp", ".xbm"]

/-- What saving a frame with four bytes a pixel leaves in its file, and how it fails if it does. A
picture without pixels fails after its header. -/
def write (p : Path) (f : Frame) : Except Error (List UInt8 × Option Error) :=
  let extension := String.ofList (p.extension.toList.map Char.toLower)
  if extensions.contains extension then
    let failure := if f.pixels.isEmpty then some (.misuse .value "no pixels") else none
    .ok (headerBytes f ++ dropAlpha f.pixels, failure)
  else if alphaless.contains extension then .ok ([], some (.alphaRefused p.extension))
  else .error (.unknownExtension p.extension)

end ShaderFlow.Picture
