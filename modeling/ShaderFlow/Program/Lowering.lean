import ShaderFlow.Term.Traverse

set_option autoImplicit false

namespace ShaderFlow

/-- Progress of a lowering: the stems named so far, the variable of each key met so far with the
latest first, how often a key was met again, and the definitions made. -/
structure Lowering where
  stems : List String := []
  entries : List (Key × String) := []
  hits : Nat := 0
  made : List Term := []

namespace Lowering

/-- A name that was not given before: the label of the stem and how often the stem was used. -/
def allocate {α : Type} [BEq α] (label : α → String) (stem : α) : StateM (List α) String :=
  fun stems => (s!"{label stem}_{stems.count stem}", stem :: stems)

/-- The names that a list of stems receives in turn. -/
def allocateAll {α : Type} [BEq α] (label : α → String) : List α → StateM (List α) (List String)
  | [] => pure []
  | stem :: rest => return (← allocate label stem) :: (← allocateAll label rest)

end Lowering

/-- Computations that lower terms. -/
abbrev LowerM := StateT Lowering (Except Error)

namespace Lowering

def lookup (key : Key) : LowerM (Option String) := do
  let state ← get
  match state.entries.lookup key with
  | some name =>
    set { state with hits := state.hits + 1 }
    return some name
  | none => return none

def reserve (stem : String) : LowerM String := do
  let state ← get
  let (name, stems) := allocate id stem state.stems
  set { state with stems := stems }
  return name

def record (key : Key) (name type : String) (init : Term) : LowerM Unit :=
  modify fun state =>
    { state with
      entries := (key, name) :: state.entries
      made := state.made ++ [.define name type init] }

end Lowering

namespace Term

open Lowering

mutual
/-- The expression with references in place of its shared variables. The name of a new definition
is reserved before its initializer is lowered, and the key is recorded after. -/
def lower : Term → LowerM Term
  | shared key type init stem => do
    match ← lookup key with
    | some name => return ref name
    | none =>
      let name ← reserve stem
      let init ← lower init
      record key name type init
      return ref name
  | number x => pure (number x)
  | ref name => pure (ref name)
  | vec type args => return vec type (← lowerAll args)
  | call func args => return call func (← lowerAll args)
  | swizzle t cs => return swizzle (← lower t) cs
  | raw ps => return raw (← lowerParts ps)
  | absent | text _ | define .. | commit _ => throw .notExpression

def lowerAll : List Term → LowerM (List Term)
  | [] => pure []
  | t :: ts => return (← lower t) :: (← lowerAll ts)

def lowerParts : List Term → LowerM (List Term)
  | [] => pure []
  | text s :: ts => return text s :: (← lowerParts ts)
  | t :: ts => return (← lower t) :: (← lowerParts ts)
end

def lowerStatement : Term → LowerM Term
  | define name type init => return define name type (← lower init)
  | commit value => return commit (← lower value)
  | _ => throw .notStatement

def lowerStatements : List Term → LowerM (List Term)
  | [] => pure []
  | s :: ss => return (← lowerStatement s) :: (← lowerStatements ss)

end Term

/-- The definitions made for shared variables followed by the lowered statements, and how often a
definition was shared. -/
def lowerProgram (statements : List Term) : Except Error (List Term × Nat) := do
  let (lowered, state) ← (Term.lowerStatements statements).run {}
  return (state.made ++ lowered, state.hits)

end ShaderFlow
