import ShaderFlow.Emit
import ShaderFlow.Fragment
import ShaderFlow.Logged
import ShaderFlow.Program.Lowering
import ShaderFlow.Program.Resolution

set_option autoImplicit false

namespace ShaderFlow

structure Program where
  definitions : List Definition
  commit : Term
  /-- Count of the definitions that were dropped. -/
  unused : Nat
  /-- How often a shared variable was met again. -/
  hits : Nat

namespace Program

def isCommit : Term → Bool
  | .commit _ => true
  | _ => false

/-- The commit statement, if there is exactly one. -/
def commitOf (statements : List Term) : Except Error Term :=
  match statements.filter isCommit with
  | [commit] => .ok commit
  | commits => .error (.commitCount commits.length)

def ofStatements (statements : List Term) : Except Error Program := do
  let (lowered, hits) ← lowerProgram statements
  let commit ← commitOf lowered
  let known ← Definition.table lowered
  let definitions ← Resolution.resolve known commit
  return { definitions, commit, hits, unused := known.length - definitions.length }

/-- The lines of the program's body. -/
def body (target : Target) (p : Program) : Except Error (List String) := do
  let definitions ← p.definitions.mapM fun d => d.toTerm.emitStatement target 1
  return definitions ++ [← p.commit.emitStatement target 1]

/-- The source of the program. -/
def source (target : Target) (p : Program) : Except Error String := do
  let lines ← p.body target
  return "\n".intercalate (target.preamble ++ ["", "void main() \x7b"] ++ lines ++ ["\x7d"])

end Program

/-- The source of a finished fragment. -/
def Fragment.generate (target : Target) (f : Fragment) : Logged String := do
  let program ← Program.ofStatements f.statements
  Logged.tell (.emitting program.definitions.length program.unused program.hits)
  program.source target

end ShaderFlow
