import Mathlib.Data.List.Forall2

set_option autoImplicit false

/-
Expressions of the shading language with their usual precedences: components are taken of the
tightest operands, then comes negation, then products and quotients, then sums and differences, and
operators of one level group from the left. Tokens are read in at most one way.
-/

namespace ShaderFlow.Reading

inductive Operator where
  | plus
  | minus
  | times
  | divide
  deriving DecidableEq

/-- What an expression says, with nothing left to be grouped. -/
inductive Tree where
  | name (s : String)
  | literal (s : String)
  | call (func : String) (args : List Tree)
  | select (base : Tree) (components : String)
  | negate (t : Tree)
  | binary (op : Operator) (left right : Tree)

inductive Token where
  | word (s : String)
  | numeral (s : String)
  | opening
  | closing
  | comma
  | dot
  | operator (op : Operator)
  deriving DecidableEq

/-- How tight an expression binds, from the loosest to the tightest. -/
inductive Level where
  | sum
  | product
  | negation
  | operand
  deriving DecidableEq

namespace Level

def rank : Level → Nat
  | sum => 0
  | product => 1
  | negation => 2
  | operand => 3

instance : LE Level := ⟨fun a b => a.rank ≤ b.rank⟩

instance (a b : Level) : Decidable (a ≤ b) := inferInstanceAs (Decidable (a.rank ≤ b.rank))

theorem le_refl (a : Level) : a ≤ a := Nat.le_refl _

theorem le_trans {a b c : Level} (first : a ≤ b) (second : b ≤ c) : a ≤ c :=
  Nat.le_trans first second

theorem le_operand (a : Level) : a ≤ operand := by cases a <;> decide

theorem sum_le (a : Level) : sum ≤ a := Nat.zero_le _

/-- The next tighter level. -/
def next : Level → Level
  | sum => product
  | product => negation
  | negation | operand => operand

theorem le_next (a : Level) : a ≤ a.next := by cases a <;> decide

end Level

namespace Operator

def level : Operator → Level
  | plus | minus => .sum
  | times | divide => .product

theorem level_le_product (op : Operator) : op.level ≤ .product := by cases op <;> decide

end Operator

/-- Tokens that make up an expression of a level, and what it says. -/
inductive Derives : Level → List Token → Tree → Prop
  | name {level : Level} (s : String) : Derives level [.word s] (.name s)
  | literal {level : Level} (s : String) : Derives level [.numeral s] (.literal s)
  | group {level : Level} {ts : List Token} {tree : Tree} :
      Derives .sum ts tree → Derives level (.opening :: ts ++ [.closing]) tree
  | call {level : Level} (func : String) {parts : List (List Token)} {args : List Tree} :
      args ≠ [] → List.Forall₂ (Derives .sum) parts args →
      Derives level (.word func :: .opening :: [Token.comma].intercalate parts ++ [.closing])
        (.call func args)
  | select {level : Level} {ts : List Token} {tree : Tree} (components : String) :
      Derives .operand ts tree → Derives level (ts ++ [.dot, .word components])
        (.select tree components)
  | negate {level : Level} {ts : List Token} {tree : Tree} :
      level ≤ .negation → Derives .negation ts tree →
      Derives level (.operator .minus :: ts) (.negate tree)
  | binary {level : Level} (op : Operator) {ls rs : List Token} {left right : Tree} :
      level ≤ op.level → Derives op.level ls left → Derives op.level.next rs right →
      Derives level (ls ++ .operator op :: rs) (.binary op left right)

namespace Derives

/-- Induction over a derivation, where the arguments of a call are met in step. -/
@[elab_as_elim]
theorem induction
    {P : (level : Level) → (ts : List Token) → (tree : Tree) → Derives level ts tree → Prop}
    (name : ∀ level s, P level _ _ (.name s)) (literal : ∀ level s, P level _ _ (.literal s))
    (group : ∀ level ts tree (inner : Derives .sum ts tree), P _ _ _ inner →
      P level _ _ (.group inner))
    (call : ∀ level func parts args (some : args ≠ [])
      (inner : List.Forall₂ (Derives .sum) parts args),
      List.Forall₂ (fun ts tree => ∃ derives, P .sum ts tree derives) parts args →
      P level _ _ (.call func some inner))
    (select : ∀ level ts tree components (inner : Derives .operand ts tree), P _ _ _ inner →
      P level _ _ (.select components inner))
    (negate : ∀ level ts tree (le : level ≤ .negation) (inner : Derives .negation ts tree),
      P _ _ _ inner → P level _ _ (.negate le inner))
    (binary : ∀ level op ls rs left right (le : level ≤ op.level) (inner : Derives op.level ls left)
      (inner' : Derives op.level.next rs right), P _ _ _ inner → P _ _ _ inner' →
      P level _ _ (.binary op le inner inner'))
    {level : Level} {ts : List Token} {tree : Tree} (derives : Derives level ts tree) :
    P level ts tree derives := by
  refine @Derives.rec P
    (fun parts args _ => List.Forall₂ (fun ts tree => ∃ derives, P .sum ts tree derives) parts args)
    (name _) (literal _) (group _ _ _) (fun {_} func {_ _} => call _ func _ _)
    (fun components => select _ _ _ components) (negate _ _ _)
    (fun {_} op {_ _ _ _} => binary _ op _ _ _ _) .nil ?_ level ts tree derives
  intro ts tree parts args derives _ here there
  exact .cons ⟨derives, here⟩ there

/-- What binds tight binds loosely as well. -/
theorem loosen {level level' : Level} {ts : List Token} {tree : Tree}
    (derives : Derives level ts tree) (le : level' ≤ level) : Derives level' ts tree := by
  cases derives with
  | name s => exact .name s
  | literal s => exact .literal s
  | group inner => exact .group inner
  | call func some inner => exact .call func some inner
  | select components inner => exact .select components inner
  | negate tight inner => exact .negate (Level.le_trans le tight) inner
  | binary op tight left right => exact .binary op (Level.le_trans le tight) left right

end Derives

section Machine

/-- What waits for an expression to be complete. -/
inductive Frame where
  | group
  | call (func : String) (args : List Tree)
  | negation
  | operand (left : Tree) (op : Operator)

/-- A reader in the middle of its tokens: it waits for an operand, holds one, or holds one of which
components are to be taken. -/
inductive State where
  | waiting (stack : List Frame)
  | holding (stack : List Frame) (tree : Tree)
  | selecting (stack : List Frame) (tree : Tree)

/-- Completes all that binds at a level or tighter. -/
def reduce (level : Level) : List Frame → Tree → List Frame × Tree
  | .negation :: stack, t =>
    if level ≤ .negation then reduce level stack (.negate t) else (.negation :: stack, t)
  | .operand left op :: stack, t =>
    if level ≤ op.level then reduce level stack (.binary op left t)
    else (.operand left op :: stack, t)
  | stack, t => (stack, t)

def step : State → Token → Option State
  | .waiting stack, .word s => some (.holding stack (.name s))
  | .waiting stack, .numeral s => some (.holding stack (.literal s))
  | .waiting stack, .opening => some (.waiting (.group :: stack))
  | .waiting stack, .operator .minus => some (.waiting (.negation :: stack))
  | .holding stack t, .opening =>
    match t with
    | .name func => some (.waiting (.call func [] :: stack))
    | _ => none
  | .holding stack t, .dot => some (.selecting stack t)
  | .selecting stack t, .word components => some (.holding stack (.select t components))
  | .holding stack t, .operator op =>
    let (stack, left) := reduce op.level stack t
    some (.waiting (.operand left op :: stack))
  | .holding stack t, .comma =>
    match reduce .sum stack t with
    | (.call func args :: stack, t) => some (.waiting (.call func (args ++ [t]) :: stack))
    | _ => none
  | .holding stack t, .closing =>
    match reduce .sum stack t with
    | (.group :: stack, t) => some (.holding stack t)
    | (.call func args :: stack, t) => some (.holding stack (.call func (args ++ [t])))
    | _ => none
  | _, _ => none

def run : State → List Token → Option State
  | state, [] => some state
  | state, t :: ts => (step state t).bind fun next => run next ts

/-- Reads tokens from left to right. -/
def parse (ts : List Token) : Option Tree :=
  match run (.waiting []) ts with
  | some (.holding stack t) =>
    match reduce .sum stack t with
    | ([], t) => some t
    | _ => none
  | _ => none

theorem run_append (state : State) (ts us : List Token) :
    run state (ts ++ us) = (run state ts).bind fun next => run next us := by
  induction ts generalizing state with
  | nil => rfl
  | cons t ts ih =>
    rw [List.cons_append, run, run, Option.bind_assoc]
    congr 1
    funext next
    exact ih next

theorem run_snoc {state next : State} {ts : List Token} (ran : run state ts = some next)
    (t : Token) :
    run state (ts ++ [t]) = step next t := by
  rw [run_append, ran, Option.bind_some, run]
  exact Option.bind_fun_some _

/-- No operator of the level or tighter waits on top. -/
def Fits (level : Level) (stack : List Frame) : Prop :=
  ∀ op : Operator, level ≤ op.level → ∀ t, reduce op.level stack t = (stack, t)

theorem Fits.mono {level level' : Level} {stack : List Frame} (fits : Fits level stack)
    (le : level ≤ level') : Fits level' stack :=
  fun op tight => fits op (Level.le_trans le tight)

/-- After an expression a reader that waited on `stack` holds something, and completing what binds
at the level comes to the expression itself. Nothing is left to complete when it binds tightest. -/
def Reaches (level : Level) (ts : List Token) (tree : Tree) : Prop :=
  ∀ stack, Fits level stack → ∃ stack' tree',
    run (.waiting stack) ts = some (.holding stack' tree') ∧
      (∀ looser, looser ≤ level → reduce looser stack' tree' = reduce looser stack tree) ∧
      (level = .operand → stack' = stack ∧ tree' = tree)

theorem Reaches.of_exact {level : Level} {ts : List Token} {tree : Tree}
    (exact : ∀ stack, Fits level stack → run (.waiting stack) ts = some (.holding stack tree)) :
    Reaches level ts tree :=
  fun stack fits => ⟨stack, tree, exact stack fits, fun _ _ => rfl, fun _ => ⟨rfl, rfl⟩⟩

/-- Inside brackets everything is completed at the end. -/
theorem Reaches.exists_of_closed {ts : List Token} {tree : Tree} (reaches : Reaches .sum ts tree)
    (frame : Frame)
    (closed : ∀ level stack t, reduce level (frame :: stack) t = (frame :: stack, t))
    (stack : List Frame) : ∃ stack' tree',
      run (.waiting (frame :: stack)) ts = some (.holding stack' tree') ∧
        reduce .sum stack' tree' = (frame :: stack, tree) := by
  obtain ⟨stack', tree', ran, complete, -⟩ := reaches (frame :: stack) fun op _ => closed _ _
  exact ⟨stack', tree', ran, by rw [complete _ (Level.le_refl _), closed]⟩

/-- The arguments of a call are gathered one by one. -/
theorem run_arguments {parts : List (List Token)} {args : List Tree}
    (related : List.Forall₂ (Reaches .sum) parts args) (some : args ≠ []) (func : String)
    (before : List Tree) (stack : List Frame) :
    run (.waiting (.call func before :: stack)) ([Token.comma].intercalate parts ++ [.closing]) =
      .some (.holding stack (.call func (before ++ args))) := by
  induction related generalizing before with
  | nil => exact absurd rfl some
  | @cons part tree parts args here rest ih =>
    obtain ⟨stack', tree', ran, complete⟩ :=
      here.exists_of_closed (.call func before) (fun _ _ _ => rfl) stack
    cases rest with
    | nil =>
      rw [List.intercalate_singleton, run_snoc ran]
      simp [step, complete]
    | @cons part' tree' parts args _ _ =>
      rw [List.intercalate_cons_cons, List.append_assoc, List.append_assoc, run_append, ran,
        Option.bind_some, List.singleton_append, run]
      simp only [step, complete, Option.bind_some]
      simpa using ih (by simp) (before ++ [tree])

/-- Reading follows a derivation token by token. -/
theorem reaches_of_derives {level : Level} {ts : List Token} {tree : Tree}
    (derives : Derives level ts tree) : Reaches level ts tree := by
  induction derives using Derives.induction with
  | name level s => exact .of_exact fun stack _ => rfl
  | literal level s => exact .of_exact fun stack _ => rfl
  | group level ts tree _ inner =>
    refine .of_exact fun stack _ => ?_
    obtain ⟨stack', tree', ran, complete⟩ := inner.exists_of_closed .group (fun _ _ _ => rfl) stack
    rw [List.cons_append, run]
    simp only [step, Option.bind_some]
    rw [run_snoc ran]
    simp [step, complete]
  | call level func parts args some _ inner =>
    refine .of_exact fun stack _ => ?_
    have each := inner.imp fun ts tree known => known.2
    simpa [run, step] using run_arguments each some func [] stack
  | select level ts tree components _ inner =>
    refine .of_exact fun stack fits => ?_
    obtain ⟨stack', tree', ran, -, exact⟩ := inner stack (fits.mono (Level.le_operand level))
    obtain ⟨rfl, rfl⟩ := exact rfl
    rw [run_append, ran]
    rfl
  | negate level ts tree tight _ inner =>
    intro stack _
    -- No operator has the level of a negation, so nothing has to fit.
    obtain ⟨stack', tree', ran, complete, -⟩ := inner (.negation :: stack) fun op bad => by
      cases op <;> exact absurd bad (by decide)
    refine ⟨stack', tree', by simpa [run, step] using ran, fun looser le => ?_, ?_⟩
    · have below : looser ≤ .negation := Level.le_trans le tight
      rw [complete looser below, reduce, if_pos below]
    · rintro rfl
      exact absurd tight (by decide)
  | binary level op ls rs left right tight _ _ inner inner' =>
    intro stack fits
    obtain ⟨stack₁, tree₁, ran, complete, -⟩ := inner stack (fits.mono tight)
    have first : reduce op.level stack₁ tree₁ = (stack, left) := by
      rw [complete _ (Level.le_refl _), fits op tight]
    obtain ⟨stack₂, tree₂, ran', complete', -⟩ :=
      inner' (.operand left op :: stack) fun op' above t => by
      rw [reduce, if_neg]
      revert above
      cases op <;> cases op' <;> decide
    refine ⟨stack₂, tree₂, ?_, fun looser le => ?_, ?_⟩
    · rw [run_append, ran, Option.bind_some, run]
      simpa [step, first] using ran'
    · have below : looser ≤ op.level := Level.le_trans le tight
      rw [complete' looser (Level.le_trans below (Level.le_next _)), reduce, if_pos below]
    · rintro rfl
      exact absurd (Level.le_trans tight op.level_le_product) (by decide)

/-- Whatever tokens say, reading them says it. -/
theorem parse_of_derives {ts : List Token} {tree : Tree} (derives : Derives .sum ts tree) :
    parse ts = some tree := by
  obtain ⟨stack', tree', ran, complete, -⟩ := reaches_of_derives derives [] fun _ _ _ => rfl
  have whole : reduce .sum stack' tree' = ([], tree) := complete _ (Level.le_refl _)
  simp [parse, ran, whole]

theorem Derives.unique {ts : List Token} {tree tree' : Tree} (derives : Derives .sum ts tree)
    (derives' : Derives .sum ts tree') : tree = tree' :=
  Option.some.inj ((parse_of_derives derives).symm.trans (parse_of_derives derives'))

example : parse [.word "a", .operator .minus, .word "b", .operator .minus, .word "c",
      .operator .times, .operator .minus, .word "d", .dot, .word "x"] =
    some (.binary .minus (.binary .minus (.name "a") (.name "b"))
      (.binary .times (.name "c") (.negate (.select (.name "d") "x")))) := rfl

end Machine

end ShaderFlow.Reading
