import ShaderFlow.Evaluation.Basic
import ShaderFlow.Store

set_option autoImplicit false

namespace ShaderFlow

structure Poller where
  file : Path
  target : Target
  selector : Option Json
  /-- The time of change seen last. -/
  seen : Option Int

namespace Poller

def start (fs : Files) (file : Path) (target : Target) (selector : Option Json) : Poller :=
  { file, target, selector, seen := fs.modified? file }

/-- Compiles the file as it is now. -/
def compile (p : Poller) (fs : Files) : Logged (Option String) := do
  Logged.tell (.changeDetected p.file.name)
  match ← Store.load fs p.file with
  | none => return none
  | some document =>
    tryCatch (do
      let g : Graph Int ← Graph.ofDocument .builtin document
      return some (← g.evaluate p.target p.selector false)) fun e =>
        if e.isGraph || e.isEvaluation then do
          Logged.tell (.shaderKept e)
          return none
        else throw e

/-- The new source, if the file changed and compiles. -/
def poll (p : Poller) (fs : Files) : Poller × Logged (Option String) :=
  match fs.modified? p.file with
  | none => (p, pure none)
  | some time =>
    if p.seen = some time then (p, pure none)
    else
      let p := { p with seen := some time }
      (p, p.compile fs)

end Poller

end ShaderFlow
