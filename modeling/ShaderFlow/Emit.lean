import ShaderFlow.Target

set_option autoImplicit false

namespace ShaderFlow

/-- A number as the shading language writes it. -/
def Binary64.literal (x : Binary64) : Except Error String :=
  if x.isFinite then .ok x.text else .error (.nonFinite x)

namespace Term

/-- Whether components can be taken of a term without parentheses. -/
def isAtomic : Term → Bool
  | ref _ | call .. | vec .. | swizzle .. => true
  | _ => false

mutual
/-- The text of an expression. -/
def emit (target : Target) : Term → Except Error String
  | number x => x.literal
  | vec type args => return type.name ++ "(" ++ ", ".intercalate (← emitAll target args) ++ ")"
  | ref name => .ok name
  | call func args =>
    return target.functionName func ++ "(" ++ ", ".intercalate (← emitAll target args) ++ ")"
  | swizzle t cs => do
    let base ← t.emit target
    return (if t.isAtomic then base else "(" ++ base ++ ")") ++ "." ++ cs
  | raw ps => return String.join (← emitParts target ps)
  | shared key .. => .error (.unlowered key)
  | absent | text _ | define .. | commit _ => .error .notExpression

def emitAll (target : Target) : List Term → Except Error (List String)
  | [] => .ok []
  | t :: ts => return (← t.emit target) :: (← emitAll target ts)

def emitParts (target : Target) : List Term → Except Error (List String)
  | [] => .ok []
  | text s :: ts => return s :: (← emitParts target ts)
  | t :: ts => return (← t.emit target) :: (← emitParts target ts)
end

/-- The blanks before a statement at a nesting level. -/
def indentation (level : Nat) : String := String.join (List.replicate level "    ")

/-- The line of a statement. -/
def emitStatement (target : Target) (level : Nat) : Term → Except Error String
  | define name type init =>
    return indentation level ++ type ++ " " ++ name ++ " = " ++ (← init.emit target) ++ ";"
  | commit value =>
    return indentation level ++ target.outputName ++ " = " ++ (← value.emit target) ++ ";"
  | _ => .error .notStatement

end Term

end ShaderFlow
