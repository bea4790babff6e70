import ShaderFlow.Proofs.Program.Generation

set_option autoImplicit false

/-
The targets differ in how they spell one builtin function and the variable that takes the final
color. A program for one target is the program for the other with the calls of that function renamed
and the variable replaced, line by line; where one target has none, the other has none for the same
reason.
-/

namespace ShaderFlow

namespace Outcome

variable {α β γ δ : Type}

/-- Two computations that fail alike, or whose results are related. -/
inductive Matches (R : α → β → Prop) : Except Error α → Except Error β → Prop
  | error (e : Error) : Matches R (.error e) (.error e)
  | ok {a : α} {b : β} (related : R a b) : Matches R (.ok a) (.ok b)

variable {R : α → β → Prop} {S : γ → δ → Prop}

theorem Matches.bind {first : Except Error α} {first' : Except Error β} {next : α → Except Error γ}
    {next' : β → Except Error δ} (here : Matches R first first')
    (there : ∀ a b, R a b → Matches S (next a) (next' b)) :
    Matches S (first >>= next) (first' >>= next') := by
  cases here with
  | error e => exact .error e
  | ok related => exact there _ _ related

theorem Matches.outcomes {first : Except Error α} {first' : Except Error β}
    (here : Matches R first first') : (∃ e, first = .error e ∧ first' = .error e) ∨
      ∃ a b, first = .ok a ∧ first' = .ok b ∧ R a b := by
  cases here with
  | error e => exact .inl ⟨e, rfl, rfl⟩
  | ok related => exact .inr ⟨_, _, rfl, rfl, related⟩

/-- Lists that match item by item match as a whole. -/
theorem Matches.mapM {ι : Type} {f : ι → Except Error α} {f' : ι → Except Error β}
    {R : ι → α → β → Prop} {xs : List ι} (each : ∀ x ∈ xs, Matches (R x) (f x) (f' x)) :
    Matches (fun as bs => ∃ pairs : List (α × β), as = pairs.map Prod.fst ∧
      bs = pairs.map Prod.snd ∧
      List.Forall₂ (fun x pair => R x pair.1 pair.2) xs pairs) (xs.mapM f) (xs.mapM f') := by
  induction xs with
  | nil => exact .ok ⟨[], rfl, rfl, .nil⟩
  | cons x xs ih =>
    rw [List.mapM_cons, List.mapM_cons]
    refine (each x List.mem_cons_self).bind fun a b related => ?_
    refine (ih fun x member => each x (List.mem_cons_of_mem _ member)).bind ?_
    rintro _ _ ⟨pairs, rfl, rfl, rest⟩
    exact .ok ⟨(a, b) :: pairs, rfl, rfl, .cons related rest⟩

theorem mapM_congr {f g : α → Except Error β} {xs : List α} (each : ∀ x ∈ xs, f x = g x) :
    xs.mapM f = xs.mapM g := by
  induction xs with
  | nil => rfl
  | cons x xs ih =>
    rw [List.mapM_cons, List.mapM_cons, each x List.mem_cons_self,
      ih fun x member => each x (List.mem_cons_of_mem _ member)]

end Outcome

open Outcome

namespace Term

mutual
/-- A term with its calls renamed, at any depth. Names that are referred to and literal text stay.
-/
def renameCalls (rename : String → String) : Term → Term
  | vec type args => vec type (renameCallsAll rename args)
  | call func args => call (rename func) (renameCallsAll rename args)
  | swizzle t cs => swizzle (t.renameCalls rename) cs
  | raw ps => raw (renameCallsAll rename ps)
  | shared key type init stem => shared key type (init.renameCalls rename) stem
  | define name type init => define name type (init.renameCalls rename)
  | commit value => commit (value.renameCalls rename)
  | absent => absent
  | text s => text s
  | number x => number x
  | ref name => ref name

def renameCallsAll (rename : String → String) : List Term → List Term
  | [] => []
  | t :: ts => t.renameCalls rename :: renameCallsAll rename ts
end

@[simp] theorem renameCallsAll_eq (rename : String → String) (ts : List Term) :
    renameCallsAll rename ts = ts.map (renameCalls rename) := by
  induction ts with
  | nil => rfl
  | cons t ts ih => rw [renameCallsAll, List.map_cons, ih]

attribute [simp] renameCalls

@[simp] theorem isAtomic_renameCalls (rename : String → String) (t : Term) :
    (t.renameCalls rename).isAtomic = t.isAtomic := by
  cases t <;> simp [isAtomic]

/-- To write for a target is to rename the calls as it does and to keep the new names. -/
theorem emit_eq_renameCalls (target : Target) (t : Term) :
    t.emit target = (t.renameCalls target.functionName).emit .webgl := by
  induction t using Term.induction with
  | vec type args ih | call func args ih =>
    rw [renameCalls, renameCallsAll_eq, emit, emit, emitAll_eq_mapM, emitAll_eq_mapM, List.mapM_map,
      mapM_congr ih]
    rfl
  | raw parts ih =>
    -- A literal part has no text as a term, so that the hypothesis does not speak of it.
    have each : ∀ t ∈ parts,
        t.emitPart target = (t.renameCalls target.functionName).emitPart .webgl := by
      intro t member
      have same := ih t member
      cases t with
      | text s => rfl
      | _ => exact same
    rw [renameCalls, renameCallsAll_eq, emit, emit, emitParts_eq_mapM, emitParts_eq_mapM,
      List.mapM_map, mapM_congr each]
    rfl
  | swizzle base components ih => simp [emit, ih]
  | absent | text | number | ref | shared | define | commit => simp [emit]

/-- Whether a term has a text does not depend on the target, nor does the reason why it has none. -/
theorem emit_matches (target target' : Target) (t : Term) :
    Matches (fun _ _ => True) (t.emit target) (t.emit target') := by
  induction t using Term.induction with
  | number x =>
    rw [emit, emit]
    cases x.literal with
    | error e => exact .error e
    | ok s => exact .ok trivial
  | vec type args ih | call func args ih =>
    rw [emit, emit, emitAll_eq_mapM, emitAll_eq_mapM]
    exact (Matches.mapM ih).bind fun _ _ _ => .ok trivial
  | raw parts ih =>
    have each : ∀ t ∈ parts,
        Matches (fun _ _ => True) (t.emitPart target) (t.emitPart target') := by
      intro t member
      have matched := ih t member
      cases t with
      | text s => exact .ok trivial
      | _ => exact matched
    rw [emit, emit, emitParts_eq_mapM, emitParts_eq_mapM]
    exact (Matches.mapM each).bind fun _ _ _ => .ok trivial
  | swizzle base components ih =>
    rw [emit, emit]
    exact ih.bind fun _ _ _ => .ok trivial
  | ref name => exact .ok trivial
  | absent | text | shared | define | commit => exact .error _

/-- A term with every call of `texture2D`, at any depth, spelled as one of `texture`. -/
def respell : Term → Term := renameCalls fun func => if func = "texture2D" then "texture" else func

example : (raw [text "texture2D + ", swizzle (call "texture2D" [ref "texture2D"]) "r"]).respell =
    raw [text "texture2D + ", swizzle (call "texture" [ref "texture2D"]) "r"] := rfl

theorem emit_opengl33 (t : Term) : t.emit .opengl33 = t.respell.emit .webgl := by
  have names : Target.functionName .opengl33 =
      fun func => if func = "texture2D" then "texture" else func := by
    funext func
    unfold Target.functionName
    split <;> simp_all
  rw [emit_eq_renameCalls, names, respell]

/-- The lines of one statement: as it is written for the web, and with its calls and the variable of
the final color respelled. -/
inductive Respelled : Term → String → String → Prop
  | define {name type old new : String} {init : Term} (written : init.emit .webgl = .ok old)
      (rewritten : init.respell.emit .webgl = .ok new) :
      Respelled (.define name type init) ("    " ++ type ++ " " ++ name ++ " = " ++ old ++ ";")
        ("    " ++ type ++ " " ++ name ++ " = " ++ new ++ ";")
  | commit {old new : String} {value : Term} (written : value.emit .webgl = .ok old)
      (rewritten : value.respell.emit .webgl = .ok new) :
      Respelled (.commit value) ("    gl_FragColor = " ++ old ++ ";")
        ("    fragColor = " ++ new ++ ";")

theorem emitStatement_matches (t : Term) :
    Matches (Respelled t) (t.emitStatement .webgl 1) (t.emitStatement .opengl33 1) := by
  cases t with
  | define name type init =>
    rw [emitStatement, emitStatement]
    rcases (init.emit_matches .webgl .opengl33).outcomes with
      ⟨e, failed, failed'⟩ | ⟨old, new, written, rewritten, -⟩
    · rw [failed, failed']
      exact .error e
    · rw [written, rewritten]
      exact .ok (.define written (init.emit_opengl33 ▸ rewritten))
  | commit value =>
    rw [emitStatement, emitStatement]
    rcases (value.emit_matches .webgl .opengl33).outcomes with
      ⟨e, failed, failed'⟩ | ⟨old, new, written, rewritten, -⟩
    · rw [failed, failed']
      exact .error e
    · rw [written, rewritten]
      exact .ok (.commit written (value.emit_opengl33 ▸ rewritten))
  | _ => exact .error _

end Term

namespace Program

open Definition

/-- A source with these lines in its body. -/
def layout (target : Target) (lines : List String) : String :=
  "\n".intercalate (target.preamble ++ ["", "void main() \x7b"] ++ lines ++ ["\x7d"])

theorem source_eq (target : Target) (p : Program) : p.source target =
    layout target <$> (p.definitions.map toTerm ++ [p.commit]).mapM
      (Term.emitStatement target 1) := by
  rw [source, body_eq_mapM]
  rfl

end Program

namespace Fragment

open Definition

/-- Either no target has a source for a fragment, for the same reason, or both write the same
program: the definitions and the commit statement each in one line, in the same order, where the
lines of one statement differ in the spelling of a function and of the variable of the final color
only. -/
theorem generate_respells (f : Fragment) :
    (∃ e, (f.generate .webgl).outcome = .error e ∧ (f.generate .opengl33).outcome = .error e) ∨
      ∃ (p : Program) (lines : List (String × String)), Program.ofStatements f.statements = .ok p ∧
        List.Forall₂ (fun t line => Term.Respelled t line.1 line.2)
          (p.definitions.map toTerm ++ [p.commit]) lines ∧
        (f.generate .webgl).outcome = .ok (Program.layout .webgl (lines.map Prod.fst)) ∧
        (f.generate .opengl33).outcome = .ok (Program.layout .opengl33 (lines.map Prod.snd)) := by
  rw [outcome_generate, outcome_generate]
  cases made : Program.ofStatements f.statements with
  | error e => exact .inl ⟨e, rfl, rfl⟩
  | ok p =>
    have matched := @Matches.mapM _ _ _ _ _ _ (p.definitions.map toTerm ++ [p.commit])
      fun t _ => t.emitStatement_matches
    rw [Outcome.ok_bind, Outcome.ok_bind, Program.source_eq, Program.source_eq]
    rcases matched.outcomes with ⟨e, failed, failed'⟩ | ⟨_, _, ran, ran', lines, rfl, rfl, related⟩
    · rw [failed, failed']
      exact .inl ⟨e, rfl, rfl⟩
    · rw [ran, ran']
      exact .inr ⟨p, lines, rfl, related, rfl, rfl⟩

end Fragment

end ShaderFlow
