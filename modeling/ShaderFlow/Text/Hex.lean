set_option autoImplicit false

namespace ShaderFlow.Text

/-- `n` in lower case hexadecimal, padded with zeros to at least `width` digits. -/
def hex (width n : Nat) : String :=
  let digits := Nat.toDigits 16 n
  String.ofList (List.replicate (width - digits.length) '0' ++ digits)

def hexValue? (c : Char) : Option Nat :=
  if decide ('0' ≤ c) && decide (c ≤ '9') then some (c.toNat - '0'.toNat)
  else if decide ('a' ≤ c) && decide (c ≤ 'f') then some (c.toNat - 'a'.toNat + 10)
  else if decide ('A' ≤ c) && decide (c ≤ 'F') then some (c.toNat - 'A'.toNat + 10)
  else none

/-- Two digits a byte. -/
def hexBytes (bytes : List UInt8) : String :=
  bytes.foldl (fun text b => text ++ hex 2 b.toNat) ""

/-- The blanks that may stand between bytes. -/
def isHexBlank (c : Char) : Bool := c == ' ' || (decide (9 ≤ c.toNat) && decide (c.toNat ≤ 13))

/-- The bytes that digits denote, two a byte. -/
def bytesOfHex? : List Char → Option (List UInt8)
  | [] => some []
  | c :: rest =>
    if isHexBlank c then bytesOfHex? rest
    else
      match rest with
      | [] => none
      | d :: rest => do
        let high ← hexValue? c
        let low ← hexValue? d
        return UInt8.ofNat (16 * high + low) :: (← bytesOfHex? rest)

end ShaderFlow.Text
