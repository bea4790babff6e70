import ShaderFlow.Binary64.Format
import ShaderFlow.Proofs.Reading.Grammar
import ShaderFlow.Proofs.Text.Numeral

set_option autoImplicit false

/-
A text is cut into tokens from left to right, each as long as possible. What a piece of text is cut
into does not depend on what comes before it, nor on what comes behind as long as that does not go
on with its last token. Numbers are written as one numeral, with a sign before it when they are
negative.
-/

namespace ShaderFlow.Reading

def isWordStart (c : Char) : Bool := c.isAlpha || c == '_'

def isWordPart (c : Char) : Bool := c.isAlphanum || c == '_'

/-- The characters of a numeral other than the sign of its exponent. -/
def isNumeralPart (c : Char) : Bool := c.isDigit || c == '.' || c == 'e'

/-- The token under way, with its characters so far, the latest first. -/
inductive Lexeme where
  | idle
  | word (read : List Char)
  | numeral (read : List Char)

namespace Lexeme

def extend : Lexeme → Char → Option Lexeme
  | idle, _ => none
  | word read, c => if isWordPart c then some (word (c :: read)) else none
  | numeral read, c =>
    if isNumeralPart c || ((c == '+' || c == '-') && read.head? == some 'e') then
      some (numeral (c :: read))
    else none

def tokens : Lexeme → List Token
  | idle => []
  | word read => [.word (String.ofList read.reverse)]
  | numeral read => [.numeral (String.ofList read.reverse)]

@[simp] theorem idle_tokens : tokens idle = [] := rfl

end Lexeme

/-- The token that a character is, and the one that it begins. -/
def start? (c : Char) : Option (List Token × Lexeme) :=
  if isWordStart c then some ([], .word [c])
  else if c.isDigit then some ([], .numeral [c])
  else
    match c with
    | ' ' => some ([], .idle)
    | '(' => some ([.opening], .idle)
    | ')' => some ([.closing], .idle)
    | ',' => some ([.comma], .idle)
    | '.' => some ([.dot], .idle)
    | '+' => some ([.operator .plus], .idle)
    | '-' => some ([.operator .minus], .idle)
    | '*' => some ([.operator .times], .idle)
    | '/' => some ([.operator .divide], .idle)
    | _ => none

/-- The tokens of a text, of which the first is under way. -/
def scan : Lexeme → List Char → Option (List Token)
  | lexeme, [] => some lexeme.tokens
  | lexeme, c :: cs =>
    match lexeme.extend c with
    | some longer => scan longer cs
    | none =>
      match start? c with
      | some (ts, next) => (scan next cs).map (lexeme.tokens ++ ts ++ ·)
      | none => none

/-- The expression that a text is. -/
def Parses (text : String) (tree : Tree) : Prop :=
  ∃ ts, scan .idle text.toList = some ts ∧ Derives .sum ts tree

theorem Parses.unique {text : String} {tree tree' : Tree} (parses : Parses text tree)
    (parses' : Parses text tree') : tree = tree' := by
  obtain ⟨ts, scanned, derives⟩ := parses
  obtain ⟨ts', scanned', derives'⟩ := parses'
  obtain rfl : ts = ts' := Option.some.inj (scanned.symm.trans scanned')
  exact derives.unique derives'

/-- A piece of text that is cut into given tokens wherever it stands, if the character behind it is
one that `follows` allows. -/
def Spells (text : List Char) (ts : List Token) (follows : Char → Bool) : Prop :=
  ∀ rest, (∀ c ∈ rest.head?, follows c = true) →
    scan .idle (text ++ rest) = (scan .idle rest).map (ts ++ ·)

/-- What may stand behind a word. -/
def endsWord (c : Char) : Bool := !isWordPart c

/-- What may stand behind any operand. -/
def endsOperand (c : Char) : Bool := endsWord c && !(c == '.' || c == '+' || c == '-')

def anything (_ : Char) : Bool := true

namespace Spells

variable {first second : List Char} {ts us : List Token} {follows follows' : Char → Bool}

theorem scan_eq (spells : Spells first ts follows) : scan .idle first = some ts := by
  have whole := spells [] (by simp)
  simpa [scan, Lexeme.tokens] using whole

theorem mono (spells : Spells first ts follows) (le : ∀ c, follows' c = true → follows c = true) :
    Spells first ts follows' :=
  fun rest allowed => spells rest fun c member => le c (allowed c member)

theorem append {c : Char} (spells : Spells first ts follows) (spells' : Spells second us follows')
    (starts : second.head? = some c) (fits : follows c = true) :
    Spells (first ++ second) (ts ++ us) follows' := by
  intro rest allowed
  have head : (second ++ rest).head? = some c := by
    cases second with
    | nil => cases starts
    | cons d ds => simpa using starts
  rw [List.append_assoc, spells (second ++ rest) (by simp [head, fits]), spells' rest allowed,
    Option.map_map]
  simp [Function.comp_def]

theorem append_anything (spells : Spells first ts anything) (spells' : Spells second us follows') :
    Spells (first ++ second) (ts ++ us) follows' := by
  intro rest allowed
  rw [List.append_assoc, spells (second ++ rest) fun _ _ => rfl, spells' rest allowed,
    Option.map_map]
  simp [Function.comp_def]

end Spells

section Lexemes

/-- A token ends where nothing goes on with it. -/
theorem scan_of_stops {lexeme : Lexeme} {rest : List Char}
    (stops : ∀ c ∈ rest.head?, lexeme.extend c = none) :
    scan lexeme rest = (scan .idle rest).map (lexeme.tokens ++ ·) := by
  cases rest with
  | nil => simp [scan, Lexeme.tokens]
  | cons c cs =>
    have stop := stops c (by simp)
    have idle : Lexeme.idle.extend c = none := rfl
    simp only [scan, stop, idle]
    cases start? c with
    | none => rfl
    | some began => simp [Lexeme.idle_tokens, Function.comp_def]

/-- Blanks and the marks that are tokens by themselves. -/
theorem spells_mark {c : Char} {ts : List Token} (start : start? c = some (ts, .idle)) :
    Spells [c] ts anything := by
  intro rest _
  have idle : Lexeme.idle.extend c = none := rfl
  simp [scan, idle, start]

/-- Whether a text is one word. -/
def isWord : List Char → Bool
  | [] => false
  | c :: cs => isWordStart c && cs.all isWordPart

theorem isWordPart_of_isWord {cs : List Char} (word : isWord cs = true) :
    ∀ c ∈ cs, isWordPart c = true := by
  cases cs with
  | nil => cases word
  | cons c cs =>
    obtain ⟨first, parts⟩ := Bool.and_eq_true_iff.mp word
    have head : isWordPart c = true := by
      rcases Bool.or_eq_true_iff.mp first with letter | mark
      · simp [isWordPart, Char.isAlphanum, letter]
      · simp [isWordPart, mark]
    simpa [head] using parts

/-- A word stays one when parts of words are joined to it. -/
theorem isWord_join {word rest : String} (first : isWord word.toList = true)
    (parts : ∀ c ∈ rest.toList, isWordPart c = true) :
    isWord (word ++ "_" ++ rest).toList = true := by
  rw [String.toList_append, String.toList_append, List.append_assoc]
  cases chars : word.toList with
  | nil => simp [chars, isWord] at first
  | cons c cs =>
    rw [chars] at first
    simp only [isWord, Bool.and_eq_true, List.all_eq_true, List.cons_append] at first ⊢
    refine ⟨first.1, fun d member => ?_⟩
    rcases List.mem_append.mp member with early | late
    · exact first.2 d early
    · rcases List.mem_cons.mp late with rfl | late
      · rfl
      · exact parts d late

theorem scan_word {cs : List Char} (parts : ∀ c ∈ cs, isWordPart c = true) (read rest : List Char) :
    scan (.word read) (cs ++ rest) = scan (.word (cs.reverse ++ read)) rest := by
  induction cs generalizing read with
  | nil => rfl
  | cons c cs ih =>
    have part := parts c (by simp)
    simp only [List.cons_append, scan, Lexeme.extend, part, if_true]
    rw [ih fun d member => parts d (by simp [member])]
    simp

theorem spells_word {cs : List Char} (word : isWord cs = true) :
    Spells cs [.word (String.ofList cs)] endsWord := by
  cases cs with
  | nil => cases word
  | cons c cs =>
    obtain ⟨begins, parts⟩ : isWordStart c = true ∧ ∀ d ∈ cs, isWordPart d = true := by
      simpa [isWord] using word
    intro rest allowed
    simp only [List.cons_append, scan, Lexeme.extend, start?, begins, if_true, Lexeme.tokens,
      List.nil_append, Option.map_id_fun']
    rw [scan_word parts, scan_of_stops fun d member => ?_]
    · simp [Lexeme.tokens]
    · have other : isWordPart d = false := by simpa [endsWord] using allowed d member
      simp [Lexeme.extend, other]

/-- A text that goes on with whatever numeral it stands behind. -/
def Continues (cs : List Char) : Prop :=
  ∀ read rest, scan (.numeral read) (cs ++ rest) = scan (.numeral (cs.reverse ++ read)) rest

theorem Continues.append {cs ds : List Char} (first : Continues cs) (second : Continues ds) :
    Continues (cs ++ ds) := by
  intro read rest
  rw [List.append_assoc, first, second, List.reverse_append, List.append_assoc]

theorem continues_parts {cs : List Char} (parts : cs.all isNumeralPart = true) : Continues cs := by
  intro read rest
  induction cs generalizing read with
  | nil => rfl
  | cons c cs ih =>
    obtain ⟨part, others⟩ := Bool.and_eq_true_iff.mp parts
    simp only [List.cons_append, scan, Lexeme.extend, part, Bool.true_or, if_true]
    rw [ih others]
    simp

theorem isWordPart_of_isDigit {c : Char} (digit : c.isDigit = true) : isWordPart c = true := by
  simp [isWordPart, Char.isAlphanum, digit]

theorem isWordPart_of_mem_natRepr {n : Nat} {c : Char} (member : c ∈ n.repr.toList) :
    isWordPart c = true := by
  rw [Nat.toList_repr] at member
  exact isWordPart_of_isDigit (Text.isDigit_of_mem_toDigits member)

theorem isNumeralPart_of_isDigit {c : Char} (digit : c.isDigit = true) :
    isNumeralPart c = true := by
  simp [isNumeralPart, digit]

theorem continues_digits {cs : List Char} (digits : ∀ c ∈ cs, c.isDigit = true) : Continues cs :=
  continues_parts (List.all_eq_true.mpr fun c member => isNumeralPart_of_isDigit (digits c member))

theorem continues_exponent (sign : Char) (known : sign ∈ ['+', '-']) : Continues ['e', sign] := by
  intro read rest
  simp only [List.mem_cons, List.not_mem_nil, or_false] at known
  rcases known with rfl | rfl <;> rfl

theorem isWordStart_of_isDigit {c : Char} (digit : c.isDigit = true) : isWordStart c = false := by
  obtain ⟨-, high⟩ := Text.digit_bounds digit
  have upper : c.isUpper = false := decide_eq_false fun within => by
    have low : 65 ≤ c.toNat := within.1
    omega
  have lower : c.isLower = false := by
    refine Bool.and_eq_false_iff.mpr (.inl (decide_eq_false fun within => ?_))
    have low : 97 ≤ c.toNat := within
    omega
  have letter : c.isAlpha = false := Bool.or_eq_false_iff.mpr ⟨upper, lower⟩
  have other : c ≠ '_' := by
    rintro rfl
    exact absurd high (by decide)
  simp [isWordStart, letter, other]

theorem extend_numeral {c : Char} (ends : endsOperand c = true) (read : List Char) :
    (Lexeme.numeral read).extend c = none := by
  simp only [endsOperand, endsWord, isWordPart, Char.isAlphanum, Bool.and_eq_true,
    Bool.not_eq_true', Bool.or_eq_false_iff] at ends
  obtain ⟨⟨⟨letter, digit⟩, -⟩, ⟨point, plus⟩, minus⟩ := ends
  have exponent : (c == 'e') = false := by
    rw [beq_eq_false_iff_ne]
    rintro rfl
    cases letter
  simp only [Lexeme.extend, isNumeralPart, digit, point, exponent, plus, minus, Bool.or_self,
    Bool.false_and, Bool.false_eq_true, if_false]

theorem spells_numeral {c : Char} {cs : List Char} (digit : c.isDigit = true)
    (continues : Continues cs) :
    Spells (c :: cs) [.numeral (String.ofList (c :: cs))] endsOperand := by
  intro rest allowed
  have start : start? c = some ([], .numeral [c]) := by
    simp [start?, isWordStart_of_isDigit digit, digit]
  have idle : Lexeme.idle.extend c = none := rfl
  simp only [List.cons_append, scan, idle, start, Lexeme.idle_tokens, List.nil_append,
    Option.map_id_fun']
  rw [continues, scan_of_stops fun d member => extend_numeral (allowed d member) _]
  simp [Lexeme.tokens]

end Lexemes

section Numbers

open Binary64

/-- A text that is one numeral. -/
def IsNumeral (s : String) : Prop := ∃ c cs, s.toList = c :: cs ∧ c.isDigit = true ∧ Continues cs

theorem IsNumeral.spells {s : String} (numeral : IsNumeral s) :
    Spells s.toList [.numeral s] endsOperand := by
  obtain ⟨c, cs, chars, digit, continues⟩ := numeral
  have spells := spells_numeral digit continues
  rwa [← chars, String.ofList_toList] at spells

theorem IsNumeral.append {s t : String} (numeral : IsNumeral s) (continues : Continues t.toList) :
    IsNumeral (s ++ t) := by
  obtain ⟨c, cs, chars, digit, inner⟩ := numeral
  exact ⟨c, cs ++ t.toList, by simp [chars], digit, inner.append continues⟩

theorem isNumeral_ofList {c : Char} {cs : List Char} (digits : ∀ d ∈ c :: cs, d.isDigit = true) :
    IsNumeral (String.ofList (c :: cs)) :=
  ⟨c, cs, String.toList_ofList, digits c (by simp),
    continues_digits fun d member => digits d (List.mem_cons_of_mem _ member)⟩

theorem continues_zeros (n : Nat) : Continues (zeros n).toList := by
  refine continues_digits fun c member => ?_
  rw [zeros, String.toList_ofList] at member
  obtain rfl := List.eq_of_mem_replicate member
  rfl

theorem continues_point : Continues ".".toList := continues_parts rfl

theorem isDigit_of_mem_toString {n : Nat} {c : Char} (member : c ∈ (toString n).toList) :
    c.isDigit = true := by
  rw [Nat.toString_eq_repr, Nat.toList_repr] at member
  exact Text.isDigit_of_mem_toDigits member

theorem isNumeral_positional {c : Char} {cs : List Char} (digits : ∀ d ∈ c :: cs, d.isDigit = true)
    (point : Int) : IsNumeral (Layout.positional (c :: cs) point) := by
  unfold Layout.positional
  split
  · have front : IsNumeral "0." := ⟨'0', ['.'], rfl, rfl, continues_point⟩
    refine (front.append (continues_zeros _)).append ?_
    rw [String.toList_ofList]
    exact continues_digits digits
  · obtain ⟨n, whole⟩ : ∃ n, point.toNat = n + 1 := ⟨point.toNat - 1, by omega⟩
    simp only [whole, List.take_succ_cons, List.drop_succ_cons]
    have front : IsNumeral (String.ofList (c :: cs.take n)) :=
      isNumeral_ofList fun d member => digits d
        (List.cons_subset_cons _ (List.take_subset n cs) member)
    refine ((front.append (continues_zeros _)).append continues_point).append (continues_digits ?_)
    intro d member
    split at member
    · obtain rfl : d = '0' := by simpa using member
      rfl
    · rw [String.toList_ofList] at member
      exact digits d (List.mem_cons_of_mem _ (List.mem_of_mem_drop member))

theorem isNumeral_exponential (layout : Layout) {c : Char} {cs : List Char}
    (digits : ∀ d ∈ c :: cs, d.isDigit = true) (exponent : Int) :
    IsNumeral (layout.exponential (c :: cs) exponent) := by
  have single : IsNumeral (String.singleton c) :=
    ⟨c, [], by simp, digits c (by simp), fun _ _ => rfl⟩
  have tail : Continues ((if exponent < 0 then "e-" else "e+") : String).toList := by
    split
    · exact continues_exponent '-' (by simp)
    · exact continues_exponent '+' (by simp)
  unfold Layout.exponential
  refine ((IsNumeral.append ?_ tail).append (continues_zeros _)).append
    (continues_digits fun d => isDigit_of_mem_toString)
  cases cs with
  | nil => exact single
  | cons d ds =>
    refine (single.append continues_point).append ?_
    rw [String.toList_ofList]
    exact continues_digits fun e member => digits e (List.mem_cons_of_mem _ member)

/-- The text of a decimal is one numeral. -/
theorem isNumeral_decimal (layout : Layout) (d : Decimal) : IsNumeral (layout.decimal d) := by
  have digits : ∀ c ∈ (toString d.digits).toList, c.isDigit = true :=
    fun c => isDigit_of_mem_toString
  unfold Layout.decimal
  split
  · exact ⟨'0', ['.', '0'], rfl, rfl, continues_parts rfl⟩
  · cases chars : (toString d.digits).toList with
    | nil =>
      rw [Nat.toString_eq_repr, Nat.toList_repr] at chars
      exact absurd chars Nat.toDigits_ne_nil
    | cons c cs =>
      rw [chars] at digits
      dsimp only
      split
      · exact isNumeral_positional digits _
      · exact isNumeral_exponential layout digits _

/-- What the text of a number says: a numeral, or one with its sign changed. -/
def Tree.ofNumber (x : Binary64) : Tree :=
  match x.view with
  | .finite true m q => .negate (.literal (plain.decimal (if m = 0 then ⟨0, 0⟩ else shortest m q)))
  | _ => .literal x.text

/-- A finite number is written as a numeral, with a minus sign before it if it is negative. -/
theorem exists_spells_number {x : Binary64} (finite : x.isFinite = true) :
    ∃ ts, Spells x.text.toList ts endsOperand ∧ Derives .negation ts (.ofNumber x) := by
  unfold Binary64.isFinite at finite
  unfold Tree.ofNumber text textIn
  cases seen : x.view with
  | nan => simp [seen] at finite
  | infinite negative => simp [seen] at finite
  | finite negative m q =>
    have numeral := isNumeral_decimal plain (if m = 0 then ⟨0, 0⟩ else shortest m q)
    cases negative with
    | false => exact ⟨_, by simpa using numeral.spells, .literal _⟩
    | true =>
      have sign : Spells ['-'] [.operator .minus] anything := spells_mark rfl
      refine ⟨_, ?_, .negate (Level.le_refl _) (.literal _)⟩
      simpa using sign.append_anything numeral.spells

end Numbers

end ShaderFlow.Reading
