import ShaderFlow.Text.Hex
import ShaderFlow.Text.Surrogate

set_option autoImplicit false

namespace ShaderFlow.Text

/-- Why bytes are no text. -/
inductive Utf8Error where
  | start (byte : Nat) (position : Nat)
  | continuation (byte : Nat) (first last : Nat)
  | truncated (byte : Nat) (first last : Nat)
  deriving DecidableEq

namespace Utf8Error

/-- The bytes that are no character, as far as they could be part of one. -/
def extent (byte first last : Nat) : String :=
  if first = last then s!"byte 0x{hex 2 byte} in position {first}"
  else s!"bytes in position {first}-{last}"

/-- The position of the last byte that could be part of a character. -/
def last : Utf8Error → Nat
  | start _ position => position
  | continuation _ _ last | truncated _ _ last => last

def message : Utf8Error → String
  | start byte position =>
    s!"'utf-8' codec can't decode {extent byte position position}: invalid start byte"
  | continuation byte first last =>
    s!"'utf-8' codec can't decode {extent byte first last}: invalid continuation byte"
  | truncated byte first last =>
    s!"'utf-8' codec can't decode {extent byte first last}: unexpected end of data"

end Utf8Error

/-- The count of bytes that must follow a first byte, and the range of the second one. -/
def utf8Lead (b : Nat) : Option (Nat × Nat × Nat) :=
  if b < 0x80 then some (0, 0, 0)
  else if b < 0xc2 then none
  else if b < 0xe0 then some (1, 0x80, 0xbf)
  else if b = 0xe0 then some (2, 0xa0, 0xbf)
  else if b = 0xed then some (2, 0x80, 0x9f)
  else if b < 0xf0 then some (2, 0x80, 0xbf)
  else if b = 0xf0 then some (3, 0x90, 0xbf)
  else if b < 0xf4 then some (3, 0x80, 0xbf)
  else if b = 0xf4 then some (3, 0x80, 0x8f)
  else none

/-- Reads `count` continuation bytes onto `code`, the next one between `low` and `high`.
`first` is the position and `byte` the value of the character's first byte. -/
def utf8Tail (byte first : Nat) :
    Nat → Nat → Nat → Nat → Nat → List UInt8 → Except Utf8Error (Nat × List UInt8)
  | 0, code, _, _, _, rest => .ok (code, rest)
  | _ + 1, _, _, _, position, [] => .error (.truncated byte first (position - 1))
  | count + 1, code, low, high, position, b :: rest =>
    if low ≤ b.toNat ∧ b.toNat ≤ high then
      utf8Tail byte first count (64 * code + b.toNat % 64) 0x80 0xbf (position + 1) rest
    else .error (.continuation byte first (position - 1))

/-- Payload bits of a first byte with `count` bytes to follow. -/
def utf8Payload (count b : Nat) : Nat :=
  if count = 0 then b else b % Nat.pow 2 (6 - count)

/-- The character that starts with a byte, the count of its other bytes, and the bytes behind it. -/
def utf8Char (position : Nat) (b : UInt8) (rest : List UInt8) :
    Except Utf8Error (Char × Nat × List UInt8) :=
  match utf8Lead b.toNat with
  | none => .error (.start b.toNat position)
  | some (count, low, high) => do
    let (code, rest) ←
      utf8Tail b.toNat position count (utf8Payload count b.toNat) low high (position + 1) rest
    return (Char.ofNat code, count, rest)

def utf8DecodeFrom : Nat → Nat → List UInt8 → Except Utf8Error (List Char)
  | 0, _, _ => .ok []
  | _ + 1, _, [] => .ok []
  | fuel + 1, position, b :: rest => do
    let (c, count, rest) ← utf8Char position b rest
    return c :: (← utf8DecodeFrom fuel (position + 1 + count) rest)

/-- The text that bytes spell. -/
def utf8Decode (bytes : List UInt8) : Except Utf8Error (List Char) :=
  utf8DecodeFrom bytes.length 0 bytes

/-- What stands in place of bytes that are no character. -/
def replacement : Char := Char.ofNat 0xfffd

def utf8ReplaceFrom : Nat → List UInt8 → List Char
  | 0, _ | _ + 1, [] => []
  | fuel + 1, b :: rest =>
    match utf8Char 0 b rest with
    | .ok (c, _, rest) => c :: utf8ReplaceFrom fuel rest
    | .error e => replacement :: utf8ReplaceFrom fuel (rest.drop e.last)

/-- The text that bytes spell, with a replacement for each part that is no character. -/
def utf8Replace (bytes : List UInt8) : List Char := utf8ReplaceFrom bytes.length bytes

def utf8EncodeChar (c : Char) : List UInt8 :=
  let n := c.toNat
  let tail (k : Nat) : UInt8 := UInt8.ofNat (0x80 + n / Nat.pow 64 k % 64)
  if n < 0x80 then [UInt8.ofNat n]
  else if n < 0x800 then [UInt8.ofNat (0xc0 + n / 64), tail 0]
  else if n < 0x10000 then [UInt8.ofNat (0xe0 + n / 4096), tail 1, tail 0]
  else [UInt8.ofNat (0xf0 + n / 262144), tail 2, tail 1, tail 0]

/-- The bytes of a symbol, unless it is half of a surrogate pair. -/
def utf8EncodeSymbol? : Symbol → Option (List UInt8)
  | .char c => some (utf8EncodeChar c)
  | .half _ => none

/-- The bytes that spell a text, unless it holds half of a surrogate pair. -/
def utf8Encode? (s : String) : Option (List UInt8) :=
  ((symbols s).mapM utf8EncodeSymbol?).map List.flatten

/-- How many bytes spell a text. Halves of surrogate pairs count as a byte each. -/
def byteCount (s : String) : Nat :=
  (symbols s).foldl (fun n x => n + ((utf8EncodeSymbol? x).getD [0]).length) 0

end ShaderFlow.Text
