import ShaderFlow.Kind.Source
import ShaderFlow.Proofs.Program.Generation
import ShaderFlow.Proofs.Reading.Phrase

set_option autoImplicit false

/-
What the text of a term says once the names in it are explained. A lexicon knows what names stand
for; a term reads as a tree if its text, however its shared variables were named, is a phrase for a
tree that comes to the given one when names are put aside for what they stand for.
-/

namespace ShaderFlow

namespace Reading

/-- The names that are there before any program. -/
def givenNames : List String := [coordinateName, resolutionName, videoName]

namespace Tree

mutual
/-- A tree with names replaced by what they stand for. -/
def expand (sense : String → Option Tree) : Tree → Tree
  | name s => (sense s).getD (name s)
  | literal s => literal s
  | call func args => call func (expandAll sense args)
  | select base components => select (base.expand sense) components
  | negate t => negate (t.expand sense)
  | binary op left right => binary op (left.expand sense) (right.expand sense)

def expandAll (sense : String → Option Tree) : List Tree → List Tree
  | [] => []
  | t :: ts => t.expand sense :: expandAll sense ts
end

theorem expandAll_eq_map (sense : String → Option Tree) (ts : List Tree) :
    expandAll sense ts = ts.map (expand sense) := by
  induction ts with
  | nil => rfl
  | cons t ts ih => rw [expandAll, List.map_cons, ih]

attribute [simp] expand expandAll_eq_map

@[simp] theorem expand_ofNumber (sense : String → Option Tree) (x : Binary64) :
    (ofNumber x).expand sense = ofNumber x := by
  unfold ofNumber
  split <;> simp

theorem expand_total (sense : String → Option Tree) (ts : List Tree) :
    (total ts).expand sense = total (ts.map (expand sense)) := by
  cases ts with
  | nil => simp [total]
  | cons t ts =>
    simp only [total, List.map_cons]
    induction ts generalizing t with
    | nil => rfl
    | cons u ts ih => simpa using ih (.binary .plus t u)

/-- A tree whose names are all given beforehand. -/
def Fixed (t : Tree) : Prop :=
  ∀ sense : String → Option Tree, (∀ n ∈ givenNames, sense n = none) → t.expand sense = t

theorem fixed_name {n : String} (given : n ∈ givenNames) : (name n).Fixed :=
  fun sense blank => by simp [blank n given]

/-- The video color at an offset in pixels. -/
def sample (target : Target) (x y : Binary64) : Tree :=
  let part (offset : Binary64) (component : String) :=
    binary .divide (ofNumber offset) (select (name resolutionName) component)
  call (target.functionName "texture2D") [name videoName,
    binary .plus (name coordinateName) (call "vec2" [part x "x", part y "y"])]

end Tree

/-- What may stand behind the text of a term. -/
def closes (t : Term) : Char → Bool := if t.isAtomic then endsWord else endsOperand

theorem closes_of_endsOperand (t : Term) (c : Char) (ends : endsOperand c = true) :
    closes t c = true := by
  unfold closes
  split
  · exact endsWord_of_endsOperand c ends
  · exact ends

/-- How tight the text of a term binds. -/
def levelOf : Term → Level
  | .raw _ => .product
  | .number _ => .negation
  | _ => .operand

theorem product_le_levelOf (t : Term) : .product ≤ levelOf t := by
  unfold levelOf
  split <;> decide

/-- What names stand for, in a program for a target whose shared variables are named by `entries`.
-/
structure Lexicon where
  target : Target
  entries : List (Key × String)
  stands : String → Tree → Prop
  word : ∀ n tree, stands n tree → isWord n.toList = true
  sampled : ∀ dx dy n, (.tuple [.text "texture2D", .number dx, .number dy], n) ∈ entries →
    stands n (.sample target (Kind.smallNumber dx) (Kind.smallNumber dy))

namespace Lexicon

variable {x : Lexicon} {level level' : Level} {t u : Term} {tree tree' : Tree}

/-- A way to replace names that goes along with the lexicon on some of them, and keeps given names.
-/
structure Agrees (x : Lexicon) (sense : String → Option Tree) (names : List String) : Prop where
  given : ∀ n ∈ givenNames, sense n = none
  known : ∀ n ∈ names, ∀ tree, x.stands n tree → sense n = some tree

theorem Agrees.mono {sense : String → Option Tree} {names names' : List String}
    (agrees : x.Agrees sense names) (subset : names' ⊆ names) : x.Agrees sense names' :=
  ⟨agrees.given, fun n member => agrees.known n (subset member)⟩

/-- The text of a lowered term is a phrase that comes to a tree. -/
def Shows (x : Lexicon) (level : Level) (u : Term) (tree : Tree) : Prop :=
  ∃ s said, u.emit x.target = .ok s ∧ Phrase (closes u) level s said ∧
    ∀ sense, x.Agrees sense u.names → said.expand sense = tree

/-- However the shared variables of a term are named, its text is a phrase that comes to a tree. -/
def Reads (x : Lexicon) (level : Level) (t : Term) (tree : Tree) : Prop :=
  ∀ u, Term.Replaces x.entries t u → x.Shows level u tree

theorem Reads.loosen (reads : x.Reads level t tree) (le : level' ≤ level) :
    x.Reads level' t tree := by
  intro u replaced
  obtain ⟨s, said, emitted, phrase, expands⟩ := reads u replaced
  exact ⟨s, said, emitted, phrase.loosen le, expands⟩

theorem Reads.toSum (reads : x.Reads level t tree) : x.Reads .sum t tree :=
  reads.loosen (Level.sum_le level)

section Leaves

theorem shows_ref {n : String} (stands : x.stands n tree) : x.Shows level (.ref n) tree := by
  refine ⟨n, .name n, by rw [Term.emit], .name (x.word n tree stands), fun sense agrees => ?_⟩
  simp [agrees.known n (by simp) tree stands]

theorem reads_ref {n : String} (stands : x.stands n tree) : x.Reads level (.ref n) tree := by
  intro u replaced
  cases replaced
  exact shows_ref stands

theorem reads_number {v : Binary64} (finite : v.isFinite = true) :
    x.Reads .negation (.number v) (.ofNumber v) := by
  intro u replaced
  cases replaced
  refine ⟨v.text, .ofNumber v, ?_, .number finite, fun _ _ => by simp⟩
  rw [Term.emit, Binary64.literal, if_pos finite]

theorem reads_blurSample (dx dy : Int) : x.Reads level (Kind.blurSample dx dy)
    (.sample x.target (Kind.smallNumber dx) (Kind.smallNumber dy)) := by
  intro u replaced
  cases replaced with
  | shared _ _ _ _ n listed => exact shows_ref (x.sampled dx dy n listed)

end Leaves

section Lists

/-- Terms in a row are read one by one. -/
theorem exists_texts {ts us : List Term} {trees : List Tree}
    (reads : List.Forall₂ (x.Reads level) ts trees)
    (replaced : List.Forall₂ (Term.Replaces x.entries) ts us) :
    ∃ ss saids, List.Forall₂ (fun u s => u.emit x.target = .ok s) us ss ∧
      List.Forall₂ (Phrase endsOperand level) ss saids ∧ (saids = [] → trees = []) ∧
      ∀ sense, x.Agrees sense (us.flatMap Term.names) → saids.map (.expand sense) = trees := by
  induction reads generalizing us with
  | nil =>
    cases replaced
    exact ⟨[], [], .nil, .nil, fun _ => rfl, fun _ _ => rfl⟩
  | cons here _ ih =>
    obtain ⟨u, us, first, rest, rfl⟩ := List.forall₂_cons_left_iff.mp replaced
    obtain ⟨s, said, emitted, phrase, expands⟩ := here u first
    obtain ⟨ss, saids, all, phrases, -, expandsAll⟩ := ih rest
    refine ⟨s :: ss, said :: saids, .cons emitted all,
      .cons (phrase.mono (closes_of_endsOperand u)) phrases, by simp, fun sense agrees => ?_⟩
    rw [List.map_cons, expands sense (agrees.mono (by simp)),
      expandsAll sense (agrees.mono (by simp))]

theorem shows_call {func : String} {ts us : List Term} {trees : List Tree}
    (word : isWord func.toList = true) (reads : List.Forall₂ (x.Reads .sum) ts trees)
    (some : trees ≠ []) (replaced : List.Forall₂ (Term.Replaces x.entries) ts us)
    (emits : ∀ ss, us.mapM (Term.emit x.target) = .ok ss →
      u.emit x.target = .ok (func ++ "(" ++ ", ".intercalate ss ++ ")"))
    (names : us.flatMap Term.names ⊆ u.names) : x.Shows level u (.call func trees) := by
  obtain ⟨ss, saids, emitted, phrases, none, expands⟩ := exists_texts reads replaced
  refine ⟨_, _, emits ss (Outcome.mapM_eq_ok_iff.mpr emitted),
    (Phrase.call word phrases (mt none some)).mono fun _ _ => rfl, fun sense agrees => ?_⟩
  rw [Tree.expand, Tree.expandAll_eq_map, expands sense (agrees.mono names)]

theorem reads_vec {type : VecType} {ts : List Term} {trees : List Tree}
    (reads : List.Forall₂ (x.Reads .sum) ts trees) (some : trees ≠ []) :
    x.Reads level (.vec type ts) (.call type.name trees) := by
  intro u replaced
  cases replaced with
  | vec _ inner =>
    refine shows_call (by cases type <;> rfl) reads some inner (fun ss emitted => ?_) (by simp)
    rw [Term.emit, Term.emitAll_eq_mapM, emitted]
    rfl

theorem reads_call {func spelled : String} {ts : List Term} {trees : List Tree}
    (spelling : x.target.functionName func = spelled) (word : isWord spelled.toList = true)
    (reads : List.Forall₂ (x.Reads .sum) ts trees) (some : trees ≠ []) :
    x.Reads level (.call func ts) (.call spelled trees) := by
  intro u replaced
  cases replaced with
  | call _ inner =>
    refine shows_call word reads some inner (fun ss emitted => ?_) (by simp)
    rw [Term.emit, Term.emitAll_eq_mapM, emitted, spelling]
    rfl

/-- Components are taken of the whole base: it binds tightest or stands in brackets. -/
theorem reads_swizzle {components : String} (reads : x.Reads (levelOf t) t tree)
    (word : isWord components.toList = true) :
    x.Reads level (.swizzle t components) (.select tree components) := by
  intro u replaced
  cases replaced with
  | @swizzle _ _ base inner =>
    obtain ⟨s, said, emitted, phrase, expands⟩ := reads base inner
    have whole : Phrase endsWord .operand (if base.isAtomic then s else "(" ++ s ++ ")") said := by
      split
      · rename_i atomic
        have tight : levelOf t = .operand := by
          cases inner <;> first | rfl | cases atomic
        rw [closes, if_pos atomic, tight] at phrase
        exact phrase
      · have loose := (phrase.mono (closes_of_endsOperand base)).loosen (Level.sum_le _)
        exact loose.group.mono fun _ _ => rfl
    refine ⟨_, _, ?_, whole.select word, fun sense agrees => ?_⟩
    · rw [Term.emit, emitted]
      rfl
    · rw [Tree.expand, expands sense (agrees.mono (by simp))]

end Lists

section Raw

theorem emitPart_of_emit {target : Target} {s : String} (emitted : u.emit target = .ok s) :
    u.emitPart target = .ok s := by
  cases u with
  | text c =>
    rw [Term.emit] at emitted
    cases emitted
  | _ => exact emitted

theorem emit_raw {target : Target} {parts : List Term} {ss : List String}
    (emitted : List.Forall₂ (fun p s => p.emitPart target = .ok s) parts ss) :
    (Term.raw parts).emit target = .ok (String.join ss) := by
  rw [Term.emit, Term.emitParts_eq_mapM, Outcome.mapM_eq_ok_iff.mpr emitted]
  rfl

/-- Parts of raw text, each with its text, and the tree that they come to as a whole. -/
theorem shows_raw {parts : List Term} {ss : List String} {s : String} {said : Tree}
    (emitted : List.Forall₂ (fun p s => p.emitPart x.target = .ok s) parts ss)
    (joined : String.join ss = s) (phrase : Phrase endsOperand level s said)
    (expands : ∀ sense, x.Agrees sense (parts.flatMap Term.names) → said.expand sense = tree) :
    x.Shows level (.raw parts) tree :=
  ⟨s, said, joined ▸ emit_raw emitted, phrase, fun sense agrees =>
    expands sense (agrees.mono (by simp))⟩

theorem reads_text {s : String} (phrase : Phrase endsOperand level s tree) (fixed : tree.Fixed) :
    x.Reads level (.raw [.text s]) tree := by
  intro u replaced
  cases replaced with
  | raw inner =>
    obtain _ | ⟨here, _ | _⟩ := inner
    cases here
    exact shows_raw (.cons rfl .nil) (by simp) phrase fun sense agrees => fixed sense agrees.given

/-- A fixed first operand in front of a term. -/
theorem reads_behind (op : Operator) {front : String} {first : Tree}
    (phrase : Phrase endsOperand op.level front first) (fixed : first.Fixed)
    (reads : x.Reads op.level.next t tree) :
    x.Reads op.level (.raw [.text (front ++ op.symbol), t]) (.binary op first tree) := by
  intro u replaced
  cases replaced with
  | raw inner =>
    obtain _ | ⟨here, _ | ⟨there, _ | _⟩⟩ := inner
    cases here
    obtain ⟨s, said, emitted, second, expands⟩ := reads _ there
    refine shows_raw (.cons rfl (.cons (emitPart_of_emit emitted) .nil)) (by simp)
      (phrase.binary op (second.mono (closes_of_endsOperand _))) fun sense agrees => ?_
    rw [Tree.expand, fixed sense agrees.given, expands sense (agrees.mono (by simp))]

/-- A fixed second operand behind a term. -/
theorem reads_before (op : Operator) {back : String} {second : Tree}
    (reads : x.Reads op.level t tree) (phrase : Phrase endsOperand op.level.next back second)
    (fixed : second.Fixed) :
    x.Reads op.level (.raw [t, .text (op.symbol ++ back)]) (.binary op tree second) := by
  intro u replaced
  cases replaced with
  | raw inner =>
    obtain _ | ⟨here, _ | ⟨there, _ | _⟩⟩ := inner
    cases there
    obtain ⟨s, said, emitted, first, expands⟩ := reads _ here
    refine shows_raw (.cons (emitPart_of_emit emitted) (.cons rfl .nil))
      (by simp [String.append_assoc])
      ((first.mono (closes_of_endsOperand _)).binary op phrase) fun sense agrees => ?_
    rw [Tree.expand, expands sense (agrees.mono (by simp)), fixed sense agrees.given]

/-- An operator between two terms. -/
theorem reads_between (op : Operator) (reads : x.Reads op.level t tree)
    (reads' : x.Reads op.level.next u tree') :
    x.Reads op.level (.raw [t, .text op.symbol, u]) (.binary op tree tree') := by
  intro w replaced
  cases replaced with
  | raw inner =>
    obtain _ | ⟨here, _ | ⟨mark, _ | ⟨there, _ | _⟩⟩⟩ := inner
    cases mark
    obtain ⟨s, said, emitted, first, expands⟩ := reads _ here
    obtain ⟨s', said', emitted', second, expands'⟩ := reads' _ there
    refine shows_raw (.cons (emitPart_of_emit emitted) (.cons rfl (.cons (emitPart_of_emit emitted')
      .nil))) (by simp [String.append_assoc]) ((first.mono (closes_of_endsOperand _)).binary op
        (second.mono (closes_of_endsOperand _))) fun sense agrees => ?_
    rw [Tree.expand, expands sense (agrees.mono (by simp)), expands' sense (agrees.mono (by simp))]

/-- Brackets, where there are any, make a term bind tight enough for a factor. -/
theorem reads_group (reads : x.Reads (levelOf t) t tree) : x.Reads .negation t.group tree := by
  cases t with
  | raw parts =>
    intro u replaced
    cases replaced with
    | raw inner =>
      obtain _ | ⟨opening, _ | ⟨here, _ | ⟨closing, _ | _⟩⟩⟩ := inner
      cases opening
      cases closing
      obtain ⟨s, said, emitted, phrase, expands⟩ := reads _ here
      have loose := (phrase.mono (closes_of_endsOperand _)).loosen (Level.sum_le _)
      refine shows_raw (.cons rfl (.cons (emitPart_of_emit emitted) (.cons rfl .nil)))
        (by simp [String.append_assoc]) (loose.group.mono fun _ _ => rfl) fun sense agrees => ?_
      exact expands sense (agrees.mono (by simp))
  | number v => exact reads
  | _ => exact reads.loosen (Level.le_operand _)

/-- Terms with a mark between them and a text at the end. -/
def row (ts : List Term) (mark last : String) : List Term :=
  ts.intersperse (.text mark) ++ [.text last]

theorem exists_row {entries : List (Key × String)} {mark last : String} {ts us : List Term}
    (replaced : List.Forall₂ (Term.Replaces entries) (row ts mark last) us) :
    ∃ ts', us = row ts' mark last ∧ List.Forall₂ (Term.Replaces entries) ts ts' := by
  induction ts generalizing us with
  | nil =>
    obtain _ | ⟨here, _ | _⟩ := replaced
    cases here
    exact ⟨[], rfl, .nil⟩
  | cons t ts ih =>
    cases ts with
    | nil =>
      obtain _ | ⟨here, _ | ⟨there, _ | _⟩⟩ := replaced
      cases there
      exact ⟨[_], rfl, .cons here .nil⟩
    | cons t' ts =>
      rw [row, List.intersperse_cons_cons] at replaced
      obtain _ | ⟨here, _ | ⟨there, rest⟩⟩ := replaced
      cases there
      obtain ⟨us, rfl, inner⟩ := ih rest
      obtain _ | ⟨first, inner⟩ := inner
      exact ⟨_ :: _ :: _, rfl, .cons here (.cons first inner)⟩

theorem emitted_row {target : Target} {us : List Term} {ss : List String} (mark last : String)
    (emitted : List.Forall₂ (fun u s => u.emit target = .ok s) us ss) :
    List.Forall₂ (fun p s => p.emitPart target = .ok s) (row us mark last)
      (ss.intersperse mark ++ [last]) := by
  induction emitted with
  | nil => exact .cons rfl .nil
  | cons here rest ih =>
    cases rest with
    | nil => exact .cons (emitPart_of_emit here) (.cons rfl .nil)
    | cons => exact .cons (emitPart_of_emit here) (.cons rfl ih)

theorem join_row (mark last : String) (ss : List String) :
    String.join (ss.intersperse mark ++ [last]) = mark.intercalate ss ++ last := by
  induction ss with
  | nil => simp
  | cons s ss ih =>
    cases ss with
    | nil => simp
    | cons s' ss =>
      rw [List.intersperse_cons_cons, String.intercalate_cons_cons, List.cons_append,
        List.cons_append, String.join_cons, String.join_cons, ih]
      simp [String.append_assoc]

theorem names_row (mark last : String) (us : List Term) :
    (row us mark last).flatMap Term.names = us.flatMap Term.names := by
  induction us with
  | nil => simp [row]
  | cons u us ih =>
    cases us with
    | nil => simp [row]
    | cons u' us =>
      rw [row, List.intersperse_cons_cons, List.cons_append, List.cons_append, List.flatMap_cons,
        List.flatMap_cons, ← row, ih]
      simp

/-- A sum in brackets over a numeral. -/
theorem reads_mean {ts : List Term} {trees : List Tree} {count : String} (numeral : IsNumeral count)
    (reads : List.Forall₂ (x.Reads .product) ts trees) (some : trees ≠ []) :
    x.Reads .product (.raw (.text "(" :: row ts " + " (") / " ++ count)))
      (.binary .divide (.total trees) (.literal count)) := by
  intro u replaced
  cases replaced with
  | raw inner =>
    obtain _ | ⟨opening, rest⟩ := inner
    cases opening
    obtain ⟨us, rfl, inner⟩ := exists_row rest
    obtain ⟨ss, saids, emitted, phrases, none, expands⟩ := exists_texts reads inner
    have grouped : Phrase endsOperand .product ("(" ++ " + ".intercalate ss ++ ")")
        (.total saids) :=
      (Phrase.total phrases (mt none some)).group.mono fun _ _ => rfl
    refine shows_raw (.cons rfl (emitted_row _ _ emitted)) ?_
      (grouped.binary .divide (.numeral numeral)) fun sense agrees => ?_
    · rw [String.join_cons, join_row]
      simp [Operator.symbol, String.append_assoc]
    · rw [Tree.expand, Tree.expand_total, expands sense (agrees.mono ?_), Tree.expand]
      simp [names_row]

end Raw

/-- A sample is read at its coordinate, shifted by each part of the offset over that of the size. -/
theorem reads_textureSample {v w : Binary64} (finite : v.isFinite = true)
    (finite' : w.isFinite = true) :
    x.Reads level (Kind.textureSample v w) (.sample x.target v w) := by
  have part : ∀ (offset : Binary64) (component : String), offset.isFinite = true →
      isWord component.toList = true → x.Reads .sum
        (.raw [.number offset,
          .text (Operator.divide.symbol ++ (resolutionName ++ "." ++ component))])
        (.binary .divide (.ofNumber offset) (.select (.name resolutionName) component)) := by
    intro offset component finite word
    have size : Phrase endsWord .operand resolutionName (.name resolutionName) := .name rfl
    refine (reads_before .divide ((reads_number finite).loosen (by decide))
      ((size.select word).mono endsWord_of_endsOperand) fun sense given => ?_).loosen (by decide)
    simp [given resolutionName (by simp [givenNames])]
  have shift : x.Reads .product (.vec .vec2 [_, _]) _ :=
    reads_vec (.cons (part v "x" finite rfl) (.cons (part w "y" finite' rfl) .nil)) (by simp)
  have place : Phrase endsOperand .sum coordinateName (.name coordinateName) :=
    (Phrase.name rfl).mono endsWord_of_endsOperand
  have coordinate := reads_behind .plus place (Tree.fixed_name (by simp [givenNames])) shift
  have video : x.Reads .sum (.raw [.text videoName]) (.name videoName) :=
    reads_text ((Phrase.name rfl).mono endsWord_of_endsOperand)
      (Tree.fixed_name (by simp [givenNames]))
  have word : isWord (x.target.functionName "texture2D").toList = true := by
    cases x.target <;> rfl
  exact reads_call rfl word (.cons video (.cons coordinate .nil)) (by simp)

/-- A lexicon in which no name stands for two trees, or for what is given beforehand, tells how to
replace names. -/
theorem exists_sense (unique : ∀ n tree tree', x.stands n tree → x.stands n tree' → tree = tree')
    (other : ∀ n tree, x.stands n tree → n ∉ givenNames) (names : List String) :
    ∃ sense, (∀ n, sense n ≠ none → n ∈ names) ∧ x.Agrees sense names := by
  classical
  refine ⟨
    fun n => if known : n ∈ names ∧ ∃ tree, x.stands n tree then some known.2.choose else none,
    fun n some => ?_, fun n given => ?_, fun n member tree stands => ?_⟩
  · by_contra missing
    exact some (dif_neg fun known => missing known.1)
  · exact dif_neg fun ⟨_, tree, stands⟩ => other n tree stands given
  · have known : n ∈ names ∧ ∃ tree, x.stands n tree := ⟨member, tree, stands⟩
    simp only [dif_pos known]
    rw [unique n _ tree known.2.choose_spec stands]

end Lexicon

/-- The text of a term can be read in one way, as a tree. -/
def ParsesTo (target : Target) (t : Term) (tree : Tree) : Prop :=
  ∃ s, t.emit target = .ok s ∧ ∀ other, Parses s other ↔ other = tree

theorem Lexicon.Shows.exists_parsesTo {x : Lexicon} {level : Level} {u : Term} {tree : Tree}
    (displays : x.Shows level u tree) : ∃ said, ParsesTo x.target u said ∧
      ∀ sense, x.Agrees sense u.names → said.expand sense = tree := by
  obtain ⟨s, said, emitted, phrase, expands⟩ := displays
  exact ⟨said, ⟨s, emitted, fun _ => phrase.parses_iff⟩, expands⟩

end Reading

end ShaderFlow
