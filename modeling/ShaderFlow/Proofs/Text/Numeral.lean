import ShaderFlow.Text.Numeral

set_option autoImplicit false

namespace ShaderFlow.Text

/-- The value of a digit of ASCII. -/
def digitOf (c : Char) : Nat := c.toNat - '0'.toNat

theorem digit_bounds {c : Char} (digit : c.isDigit = true) : 48 ≤ c.toNat ∧ c.toNat ≤ 57 := by
  simp only [Char.isDigit, ge_iff_le, Bool.and_eq_true, decide_eq_true_eq] at digit
  exact digit

theorem digitValue?_eq_some {c : Char} (digit : c.isDigit = true) :
    digitValue? c = some (digitOf c) := by
  have within : (decide ('0' ≤ c) && decide (c ≤ '9')) = true := by
    simp only [Bool.and_eq_true, decide_eq_true_eq]
    exact digit_bounds digit
  rw [digitValue?, if_pos within, digitOf]

theorem digitTail_eq {cs : List Char} (digits : ∀ c ∈ cs, c.isDigit = true) :
    digitTail cs = (cs.map digitOf, []) := by
  fun_induction digitTail cs with
  | case1 c rest d read ih =>
    have mark := digits '_' List.mem_cons_self
    exact absurd mark (by decide)
  | case2 c rest unread =>
    have mark := digits '_' List.mem_cons_self
    exact absurd mark (by decide)
  | case3 c rest _ d read ih =>
    have value : digitOf c = d := by
      have same := digitValue?_eq_some (digits c List.mem_cons_self)
      rw [read] at same
      exact (Option.some.inj same).symm
    rw [ih fun c member => digits c (List.mem_cons_of_mem _ member)]
    simp [value]
  | case4 c rest _ unread =>
    rw [digitValue?_eq_some (digits c List.mem_cons_self)] at unread
    cases unread
  | case5 => rfl

theorem digitRun_eq {cs : List Char} (digits : ∀ c ∈ cs, c.isDigit = true) :
    digitRun cs = (cs.map digitOf, []) := by
  cases cs with
  | nil => rfl
  | cons c rest =>
    have tail := digitTail_eq fun c member => digits c (List.mem_cons_of_mem _ member)
    simp only [digitRun, digitValue?_eq_some (digits c List.mem_cons_self), tail]
    rfl

/-- Blanks are no digits and no signs. -/
theorem isNumeralBlank_eq_false {c : Char} (low : 33 ≤ c.toNat) (high : c.toNat ≤ 57) :
    isNumeralBlank c = false := by
  have wide : ∀ n ∈ wideBlanks, 57 < n := by decide
  have space : c ≠ ' ' := by
    rintro rfl
    exact absurd low (by decide)
  have outside : c.toNat ∉ wideBlanks := fun member => by
    have := wide _ member
    omega
  simp only [isNumeralBlank, Bool.or_eq_false_iff, beq_eq_false_iff_ne, Bool.and_eq_false_iff,
    decide_eq_false_iff_not, List.contains_eq_mem]
  exact ⟨⟨space, .inr (by omega)⟩, outside⟩

theorem trimBy_eq_self {p : Char → Bool} {cs : List Char} (none : ∀ c ∈ cs, p c = false) :
    trimBy p cs = cs := by
  have keep : ∀ ds : List Char, (∀ c ∈ ds, p c = false) → ds.dropWhile p = ds := by
    intro ds out
    cases ds with
    | nil => rfl
    | cons c rest => rw [List.dropWhile_cons, out c List.mem_cons_self]; rfl
  rw [trimBy, keep cs none, keep cs.reverse fun c member => none c (List.mem_reverse.mp member),
    List.reverse_reverse]

/-- The digits of a number behind a minus sign or nothing. -/
def signedDigits (negative : Bool) (n : Nat) : List Char :=
  if negative then '-' :: Nat.toDigits 10 n else Nat.toDigits 10 n

theorem isDigit_of_mem_toDigits {n : Nat} {c : Char} (member : c ∈ Nat.toDigits 10 n) :
    c.isDigit = true :=
  Nat.isDigit_of_mem_toDigits (by decide) (by decide) member

theorem length_toDigits_le {n limit : Nat} (positive : 0 < limit) (short : n < Nat.pow 10 limit) :
    (Nat.toDigits 10 n).length ≤ limit :=
  (Nat.length_toDigits_le_iff (by decide) positive).mpr short

theorem isNumeralBlank_of_mem_signedDigits {negative : Bool} {n : Nat} {c : Char}
    (member : c ∈ signedDigits negative n) : isNumeralBlank c = false := by
  have digit : c = '-' ∨ c.isDigit = true := by
    cases negative with
    | false => exact .inr (isDigit_of_mem_toDigits member)
    | true => exact (List.mem_cons.mp member).imp_right isDigit_of_mem_toDigits
  rcases digit with rfl | digit
  · decide
  · have bounds := digit_bounds digit
    exact isNumeralBlank_eq_false (by omega) bounds.2

theorem sign_signedDigits (negative : Bool) (n : Nat) :
    sign (signedDigits negative n) = (negative, Nat.toDigits 10 n) := by
  cases negative with
  | true => rfl
  | false =>
    show sign (Nat.toDigits 10 n) = _
    cases shape : Nat.toDigits 10 n with
    | nil => exact absurd shape Nat.toDigits_ne_nil
    | cons c rest =>
      have digit : c.isDigit = true := isDigit_of_mem_toDigits (n := n) (by simp [shape])
      unfold sign
      split
      · rename_i same
        obtain ⟨rfl, -⟩ := List.cons.inj same
        exact absurd digit (by decide)
      · rename_i same
        obtain ⟨rfl, -⟩ := List.cons.inj same
        exact absurd digit (by decide)
      · rfl

theorem ofDigits_toDigits (n : Nat) : ofDigits ((Nat.toDigits 10 n).map digitOf) = n := by
  have read : Nat.ofDigitChars 10 (Nat.toDigits 10 n) 0 = n :=
    Nat.ofDigitChars_toDigits (by decide) (by decide)
  rw [ofDigits, List.foldl_map]
  exact read

theorem readInteger_signedDigits (negative : Bool) {n : Nat}
    (short : n < Nat.pow 10 integerDigitLimit) :
    readInteger (String.ofList (signedDigits negative n)) =
      .ok (if negative then -(n : Int) else n) := by
  have length := length_toDigits_le (by decide) short
  have several : (Nat.toDigits 10 n).map digitOf ≠ [] := by
    simp [Nat.toDigits_ne_nil]
  rw [readInteger, String.toList_ofList,
    trimBy_eq_self fun _ => isNumeralBlank_of_mem_signedDigits, sign_signedDigits]
  simp only [digitRun_eq fun _ => isDigit_of_mem_toDigits]
  rw [if_neg (by rw [List.length_map]; omega), ofDigits_toDigits]

theorem readInteger_repr {n : Int} (short : n.natAbs < Nat.pow 10 integerDigitLimit) :
    readInteger n.repr = .ok n := by
  rw [Int.repr_eq_if]
  split
  · have text : n.toNat.repr = String.ofList (signedDigits false n.toNat) := by
      apply String.toList_inj.mp
      simp [signedDigits, Nat.toList_repr]
    rw [text, readInteger_signedDigits false (by omega)]
    simp only [Bool.false_eq_true, if_false]
    congr 1
    omega
  · have text : "-" ++ (-n).toNat.repr = String.ofList (signedDigits true (-n).toNat) := by
      apply String.toList_inj.mp
      simp [signedDigits, Nat.toList_repr]
    rw [text, readInteger_signedDigits true (by omega)]
    simp only [if_true]
    congr 1
    omega

theorem digitValue?_lt {c : Char} {d : Nat} (read : digitValue? c = some d) : d < 10 := by
  unfold digitValue? at read
  split at read
  · rename_i within
    simp only [Bool.and_eq_true, decide_eq_true_eq] at within
    have high : c.toNat ≤ 57 := within.2
    cases read
    have zero : '0'.toNat = 48 := rfl
    omega
  · obtain ⟨z, found, rfl⟩ := Option.map_eq_some_iff.mp read
    have within := List.find?_some found
    simp only [Bool.and_eq_true, decide_eq_true_eq] at within
    omega

theorem digitTail_lt (cs : List Char) : ∀ d ∈ (digitTail cs).1, d < 10 := by
  fun_induction digitTail cs with
  | case1 c rest d read ih =>
    intro d' member
    rcases List.mem_cons.mp member with rfl | later
    · exact digitValue?_lt read
    · exact ih d' later
  | case3 c rest _ d read ih =>
    intro d' member
    rcases List.mem_cons.mp member with rfl | later
    · exact digitValue?_lt read
    · exact ih d' later
  | case2 | case4 | case5 => simp

theorem digitRun_lt (cs : List Char) : ∀ d ∈ (digitRun cs).1, d < 10 := by
  unfold digitRun
  split
  · split
    · rename_i read
      intro d' member
      rcases List.mem_cons.mp member with rfl | later
      · exact digitValue?_lt read
      · exact digitTail_lt _ d' later
    · simp
  · simp

theorem ofDigits_lt {ds : List Nat} (digits : ∀ d ∈ ds, d < 10) :
    ofDigits ds < Nat.pow 10 ds.length := by
  suffices general : ∀ n m, n < Nat.pow 10 m →
      ds.foldl (fun n d => 10 * n + d) n < Nat.pow 10 (m + ds.length) by
    simpa [ofDigits] using general 0 0 (by decide)
  induction ds with
  | nil => exact fun n m below => below
  | cons d ds ih =>
    intro n m below
    have small : d < 10 := digits d List.mem_cons_self
    have step : 10 * n + d < Nat.pow 10 (m + 1) := by
      have : Nat.pow 10 (m + 1) = Nat.pow 10 m * 10 := rfl
      omega
    have rest := ih (fun d member => digits d (List.mem_cons_of_mem _ member)) _ _ step
    rwa [Nat.add_assoc, Nat.add_comm 1] at rest

/-- What is read can be written again. -/
theorem natAbs_lt_of_readInteger {s : String} {n : Int} (read : readInteger s = .ok n) :
    n.natAbs < Nat.pow 10 integerDigitLimit := by
  unfold readInteger at read
  have digits := digitRun_lt (sign (trimBy isNumeralBlank s.toList)).2
  simp only at read
  split at read
  · cases read
  · cases read
  · rename_i ds _ shape
    split at read
    · cases read
    · rename_i short
      rw [shape] at digits
      have bound : ofDigits ds < Nat.pow 10 ds.length := ofDigits_lt digits
      have grows : ∀ limit, ds.length ≤ limit → Nat.pow 10 ds.length ≤ Nat.pow 10 limit :=
        fun _ => Nat.pow_le_pow_right (by decide)
      have size : n.natAbs = ofDigits ds := by
        split at read <;> cases read <;> omega
      rw [size]
      exact Nat.lt_of_lt_of_le bound (grows _ (by omega))
end ShaderFlow.Text
