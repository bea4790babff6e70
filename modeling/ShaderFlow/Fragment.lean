import ShaderFlow.Term.Basic

set_option autoImplicit false

namespace ShaderFlow

structure Fragment where
  statements : List Term
  value : Term
  deriving Inhabited

namespace Fragment

/-- A value that needs no statements. -/
def ofValue (value : Term) : Fragment := ⟨[], value⟩

/-- The statements with more of them after, and no value. -/
def complete (f : Fragment) (more : List Term) : Fragment := ⟨f.statements ++ more, .absent⟩

def withValue (f : Fragment) (value : Term) : Fragment := ⟨f.statements, value⟩

/-- Leaves out the statements that count as one with an earlier one. -/
def distinct (statements : List Term) : List Term :=
  statements.foldl (fun kept t => if kept.any (·.alike t) then kept else kept ++ [t]) []

/-- Both statement lists in turn, each statement once. -/
def combineWith (f g : Fragment) (more : List Term) (value : Term) : Fragment :=
  ⟨distinct (f.statements ++ g.statements ++ more), value⟩

/-- All statement lists in turn, each statement once. -/
def combine (fs : List Fragment) (value : Term) : Fragment :=
  ⟨distinct (fs.flatMap statements), value⟩

/-- Names a composite value, so that later uses refer to it. -/
def bind (f : Fragment) (name type : String) : Fragment :=
  if f.value.isAbsent || f.value.isInline then f
  else ⟨f.statements ++ [.define name type f.value], .ref name⟩

def isDefine : Term → Bool
  | .define .. => true
  | _ => false

def definitions (f : Fragment) : List Term := f.statements.filter isDefine

def alike (f g : Fragment) : Bool :=
  Term.alikeAll f.statements g.statements && f.value.alike g.value

end Fragment

end ShaderFlow
