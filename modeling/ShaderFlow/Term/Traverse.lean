import ShaderFlow.Error

set_option autoImplicit false

namespace ShaderFlow.Term

def isText : Term → Bool
  | text _ => true
  | _ => false

def isShared : Term → Bool
  | shared .. => true
  | _ => false

/-- The terms directly within a term. Literal text is none. -/
def parts : Term → List Term
  | vec _ args | call _ args => args
  | swizzle t _ | shared _ _ t _ | define _ _ t | commit t => [t]
  | raw ps => ps.filter (!·.isText)
  | absent | text _ | number _ | ref _ => []

/-- `parts`, refusing what is no term. -/
def children : Term → Except Error (List Term)
  | absent | text _ => .error .notTerm
  | t => .ok t.parts

mutual
/-- A term and everything within it, depth first, in source order. -/
def walk : Term → Except Error (List Term)
  | absent | text _ => .error .notTerm
  | number x => .ok [number x]
  | ref name => .ok [ref name]
  | vec type args => return vec type args :: (← walkAll args)
  | call func args => return call func args :: (← walkAll args)
  | swizzle t cs => return swizzle t cs :: (← walk t)
  | raw ps => return raw ps :: (← walkParts ps)
  | shared key type t stem => return shared key type t stem :: (← walk t)
  | define name type t => return define name type t :: (← walk t)
  | commit t => return commit t :: (← walk t)

def walkAll : List Term → Except Error (List Term)
  | [] => .ok []
  | t :: ts => return (← walk t) ++ (← walkAll ts)

def walkParts : List Term → Except Error (List Term)
  | [] => .ok []
  | text _ :: ts => walkParts ts
  | t :: ts => return (← walk t) ++ (← walkParts ts)
end

/-- The shared variables at any depth, in source order. -/
def sharedTerms (t : Term) : Except Error (List Term) :=
  return (← t.walk).filter isShared

theorem sizeAll_append (ts us : List Term) : sizeAll (ts ++ us) = sizeAll ts + sizeAll us := by
  induction ts with
  | nil => simp [sizeAll]
  | cons t ts ih => simp only [List.cons_append, sizeAll, ih, Nat.add_assoc]

theorem sizeAll_filter_le (p : Term → Bool) (ts : List Term) :
    sizeAll (ts.filter p) ≤ sizeAll ts := by
  induction ts with
  | nil => simp
  | cons t ts ih =>
    rw [List.filter_cons]
    split <;> simp only [sizeAll] <;> omega

theorem sizeAll_parts_lt (t : Term) : sizeAll t.parts < t.size := by
  cases t with
  | raw ps =>
    have := sizeAll_filter_le (!·.isText) ps
    simp only [parts, size]
    omega
  | _ => simp only [parts, size, sizeAll]; omega

/-- The names that the terms of a stack refer to. The initializer of a shared variable belongs to
the variable's own definition, so its references are not counted. -/
def refsOf : List Term → Except Error (List String)
  | [] => .ok []
  | ref name :: stack => return name :: (← refsOf stack)
  | shared .. :: stack => refsOf stack
  | absent :: _ | text _ :: _ => .error .notTerm
  | t :: stack => refsOf (t.parts ++ stack)
termination_by stack => sizeAll stack
decreasing_by
  · simp only [sizeAll, size]; omega
  · simp only [sizeAll, size]; omega
  · have := sizeAll_parts_lt t
    simp only [sizeAll_append, sizeAll]
    omega

/-- The names a term refers to, in source order, with repetitions. -/
def refs (t : Term) : Except Error (List String) := refsOf [t]

section MapShared

variable {m : Type → Type} [Monad m] [MonadExceptOf Error m]

mutual
/-- An expression with each outermost shared variable replaced by `f` of it. -/
def mapShared (f : Term → m Term) : Term → m Term
  | shared key type init stem => f (shared key type init stem)
  | number x => pure (number x)
  | ref name => pure (ref name)
  | vec type args => return vec type (← mapSharedAll f args)
  | call func args => return call func (← mapSharedAll f args)
  | swizzle t cs => return swizzle (← mapShared f t) cs
  | raw ps => return raw (← mapSharedParts f ps)
  | absent | text _ | define .. | commit _ => throw .notExpression

def mapSharedAll (f : Term → m Term) : List Term → m (List Term)
  | [] => pure []
  | t :: ts => return (← mapShared f t) :: (← mapSharedAll f ts)

def mapSharedParts (f : Term → m Term) : List Term → m (List Term)
  | [] => pure []
  | text s :: ts => return text s :: (← mapSharedParts f ts)
  | t :: ts => return (← mapShared f t) :: (← mapSharedParts f ts)
end

end MapShared

/-- Raw text with further parts after its own. -/
def append : Term → List Term → Except Error Term
  | raw ps, more => .ok (raw (ps ++ more))
  | _, _ => .error (.misuse .operation "")

/-- Raw text with further parts before its own. -/
def prepend : Term → List Term → Except Error Term
  | raw ps, more => .ok (raw (more ++ ps))
  | _, _ => .error (.misuse .operation "")

end ShaderFlow.Term
