set_option autoImplicit false

/-
Document text may hold half of a surrogate pair, which is no character. Texts spell such a half with
two characters: a mark, and a character that stands for the half. The mark itself is spelled twice,
so that no text is taken for another.
-/

namespace ShaderFlow.Text

def isHighUnit (n : Nat) : Bool := decide (0xd800 ≤ n) && decide (n < 0xdc00)

def isLowUnit (n : Nat) : Bool := decide (0xdc00 ≤ n) && decide (n < 0xe000)

/-- What a text consists of. -/
inductive Symbol where
  | char (c : Char)
  /-- Half of a surrogate pair, by its code unit. -/
  | half (unit : Nat)
  deriving DecidableEq, Inhabited

/-- The mark in front of a character that stands for something else. -/
def mark : Char := Char.ofNat 0x10ffff

/-- How far the character that stands for a half is from its unit. -/
def halfShift : Nat := 0x10000

namespace Symbol

/-- The symbol of a single unit. -/
def ofUnit (n : Nat) : Symbol :=
  if isHighUnit n || isLowUnit n then half n else char (Char.ofNat n)

/-- The symbol of a surrogate pair. -/
def ofPair (high low : Nat) : Symbol :=
  char (Char.ofNat (0x10000 + (high - 0xd800) * 0x400 + (low - 0xdc00)))

/-- The characters that spell a symbol. -/
def spell : Symbol → List Char
  | char c => if c == mark then [mark, mark] else [c]
  | half n => [mark, Char.ofNat (halfShift + n)]

def isHalf : Symbol → Bool
  | half _ => true
  | char _ => false

/-- Whether a half stands for a byte that is no character. Names of files may have such bytes. -/
def isByte : Symbol → Bool
  | half n => decide (0xdc80 ≤ n) && decide (n ≤ 0xdcff)
  | char _ => false

end Symbol

/-- The symbols that characters spell. -/
def symbolsOf : List Char → List Symbol
  | [] => []
  | [c] => [.char c]
  | c :: d :: rest =>
    if c == mark then
      (if d == mark then .char mark else .half (d.toNat - halfShift)) :: symbolsOf rest
    else .char c :: symbolsOf (d :: rest)

/-- The symbols of a text. -/
def symbols (s : String) : List Symbol := symbolsOf s.toList

def ofSymbols (xs : List Symbol) : String := String.ofList (xs.flatMap Symbol.spell)

/-- The text of plain characters. -/
def ofChars (cs : List Char) : String := ofSymbols (cs.map .char)

/-- Whether a text holds a half that stands for no byte, so that it is no name of a file. -/
def isUnnameable (s : String) : Bool := (symbols s).any fun x => x.isHalf && !x.isByte

end ShaderFlow.Text
