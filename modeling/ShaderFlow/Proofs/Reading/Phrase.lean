import ShaderFlow.Proofs.Reading.Scanner

set_option autoImplicit false

namespace ShaderFlow.Reading

/-- What a text phrase as an expression of a level, in front of a character that `follows` allows.
-/
def Phrase (follows : Char → Bool) (level : Level) (s : String) (tree : Tree) : Prop :=
  ∃ ts, Spells s.toList ts follows ∧ Derives level ts tree

/-- An operator as it stands between its operands. -/
def Operator.symbol : Operator → String
  | plus => " + "
  | minus => " - "
  | times => " * "
  | divide => " / "

theorem Operator.spells_symbol (op : Operator) :
    Spells op.symbol.toList [.operator op] anything := by
  have blank : Spells [' '] [] anything := spells_mark rfl
  cases op with
  | plus => exact (blank.append_anything (spells_mark (c := '+') rfl)).append_anything blank
  | minus => exact (blank.append_anything (spells_mark (c := '-') rfl)).append_anything blank
  | times => exact (blank.append_anything (spells_mark (c := '*') rfl)).append_anything blank
  | divide => exact (blank.append_anything (spells_mark (c := '/') rfl)).append_anything blank

theorem Operator.head?_symbol (op : Operator) : op.symbol.toList.head? = some ' ' := by
  cases op <;> rfl

theorem endsWord_of_endsOperand (c : Char) (ends : endsOperand c = true) : endsWord c = true :=
  (Bool.and_eq_true_iff.mp ends).1

namespace Phrase

variable {follows follows' : Char → Bool} {level level' : Level} {s t : String} {tree tree' : Tree}

theorem mono (phrase : Phrase follows level s tree)
    (le : ∀ c, follows' c = true → follows c = true) : Phrase follows' level s tree := by
  obtain ⟨ts, spells, derives⟩ := phrase
  exact ⟨ts, spells.mono le, derives⟩

theorem loosen (phrase : Phrase follows level s tree) (le : level' ≤ level) :
    Phrase follows level' s tree := by
  obtain ⟨ts, spells, derives⟩ := phrase
  exact ⟨ts, spells, derives.loosen le⟩

/-- What a text phrase is the one way to read it. -/
theorem parses_iff (phrase : Phrase follows level s tree) : Parses s tree' ↔ tree' = tree := by
  obtain ⟨ts, spells, derives⟩ := phrase
  have parses : Parses s tree := ⟨ts, spells.scan_eq, derives.loosen (Level.sum_le level)⟩
  exact ⟨fun other => other.unique parses, fun same => same ▸ parses⟩

theorem name (word : isWord s.toList = true) : Phrase endsWord level s (.name s) := by
  have spells := spells_word word
  rw [String.ofList_toList] at spells
  exact ⟨_, spells, .name s⟩

theorem numeral (numeral : IsNumeral s) : Phrase endsOperand level s (.literal s) :=
  ⟨_, numeral.spells, .literal s⟩

theorem number {x : Binary64} (finite : x.isFinite = true) :
    Phrase endsOperand .negation x.text (.ofNumber x) :=
  exists_spells_number finite

theorem group (inner : Phrase endsOperand .sum s tree) :
    Phrase anything level ("(" ++ s ++ ")") tree := by
  obtain ⟨ts, spells, derives⟩ := inner
  have opening : Spells ['('] [.opening] anything := spells_mark rfl
  have closing : Spells [')'] [.closing] anything := spells_mark rfl
  refine ⟨_, ?_, derives.group⟩
  simpa using (opening.append_anything spells).append closing rfl rfl

theorem select {components : String} (inner : Phrase endsWord .operand s tree)
    (word : isWord components.toList = true) :
    Phrase endsWord level (s ++ "." ++ components) (.select tree components) := by
  obtain ⟨ts, spells, derives⟩ := inner
  have dot : Spells ['.'] [.dot] anything := spells_mark rfl
  have last := spells_word word
  rw [String.ofList_toList] at last
  refine ⟨_, ?_, derives.select components⟩
  simpa using spells.append (dot.append_anything last) rfl rfl

theorem binary (op : Operator) (left : Phrase endsOperand op.level s tree)
    (right : Phrase follows op.level.next t tree') :
    Phrase follows op.level (s ++ op.symbol ++ t) (.binary op tree tree') := by
  obtain ⟨ts, spells, derives⟩ := left
  obtain ⟨us, spells', derives'⟩ := right
  refine ⟨_, ?_, .binary op (Level.le_refl _) derives derives'⟩
  have whole := (spells.append op.spells_symbol op.head?_symbol rfl).append_anything spells'
  simpa using whole

/-- The arguments of a call up to its last bracket. -/
theorem exists_arguments {ss : List String} {trees : List Tree}
    (related : List.Forall₂ (Phrase endsOperand .sum) ss trees) (some : trees ≠ []) :
    ∃ parts, List.Forall₂ (Derives .sum) parts trees ∧
      Spells ((", ".intercalate ss).toList ++ [')'])
        ([Token.comma].intercalate parts ++ [.closing]) anything := by
  induction related with
  | nil => exact absurd rfl some
  | @cons s tree ss trees here rest ih =>
    obtain ⟨ts, spells, derives⟩ := here
    cases rest with
    | nil =>
      have closing : Spells [')'] [.closing] anything := spells_mark rfl
      refine ⟨[ts], .cons derives .nil, ?_⟩
      simpa using spells.append closing rfl rfl
    | @cons s' tree' ss trees _ _ =>
      have comma : Spells [',', ' '] [.comma] anything :=
        (spells_mark (c := ',') rfl).append_anything (spells_mark (c := ' ') rfl)
      obtain ⟨parts, inner, last⟩ := ih (by simp)
      obtain ⟨part, parts, _, _, rfl⟩ := List.forall₂_cons_right_iff.mp inner
      refine ⟨ts :: part :: parts, .cons derives inner, ?_⟩
      rw [String.intercalate_cons_cons, List.intercalate_cons_cons]
      simpa using (spells.append comma rfl rfl).append_anything last

theorem call {func : String} {ss : List String} {trees : List Tree}
    (word : isWord func.toList = true) (related : List.Forall₂ (Phrase endsOperand .sum) ss trees)
    (some : trees ≠ []) :
    Phrase anything level (func ++ "(" ++ ", ".intercalate ss ++ ")") (.call func trees) := by
  obtain ⟨parts, derives, spells⟩ := exists_arguments related some
  have opening : Spells ['('] [.opening] anything := spells_mark rfl
  have first := spells_word word
  rw [String.ofList_toList] at first
  refine ⟨_, ?_, .call func some derives⟩
  simpa using (first.append opening rfl rfl).append_anything spells

end Phrase

/-- Terms added up from the left. -/
def Tree.total : List Tree → Tree
  | [] => .literal "0.0"
  | tree :: trees => trees.foldl (.binary .plus) tree

/-- Terms of which each binds as tight as a product are added up whole. -/
theorem Phrase.total {ss : List String} {trees : List Tree}
    (related : List.Forall₂ (Phrase endsOperand .product) ss trees) (some : trees ≠ []) :
    Phrase endsOperand .sum (" + ".intercalate ss) (.total trees) := by
  suffices steps : ∀ (ss : List String) (trees : List Tree) (s : String) (tree : Tree),
      List.Forall₂ (Phrase endsOperand .product) ss trees → Phrase endsOperand .sum s tree →
      Phrase endsOperand .sum (" + ".intercalate (s :: ss)) (trees.foldl (.binary .plus) tree) by
    cases related with
    | nil => exact absurd rfl some
    | cons here rest => exact steps _ _ _ _ rest (here.loosen (by decide))
  intro ss trees s tree related
  induction related generalizing s tree with
  | nil => exact fun phrase => by simpa using phrase
  | @cons s' tree' ss trees here _ ih =>
    intro phrase
    have joined := ih (s ++ " + " ++ s') (.binary .plus tree tree') (phrase.binary .plus here)
    have text : " + ".intercalate (s :: s' :: ss) =
        " + ".intercalate ((s ++ " + " ++ s') :: ss) := by
      cases ss with
      | nil => simp [String.intercalate_cons_cons]
      | cons s'' ss => simp [String.intercalate_cons_cons, String.append_assoc]
    rw [text]
    exact joined

end ShaderFlow.Reading
