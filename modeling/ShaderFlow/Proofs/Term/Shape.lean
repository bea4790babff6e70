import ShaderFlow.Proofs.Outcome
import ShaderFlow.Term.Traverse

set_option autoImplicit false

namespace ShaderFlow.Term

/-- Induction over a term, where the terms within it are met as members of its lists. -/
@[elab_as_elim]
theorem induction {P : Term → Prop} (absent : P .absent) (text : ∀ s, P (.text s))
    (number : ∀ x, P (.number x))
    (vec : ∀ type args, (∀ t ∈ args, P t) → P (.vec type args))
    (ref : ∀ name, P (.ref name))
    (call : ∀ func args, (∀ t ∈ args, P t) → P (.call func args))
    (swizzle : ∀ base components, P base → P (.swizzle base components))
    (raw : ∀ parts, (∀ t ∈ parts, P t) → P (.raw parts))
    (shared : ∀ key type init stem, P init → P (.shared key type init stem))
    (define : ∀ name type init, P init → P (.define name type init))
    (commit : ∀ value, P value → P (.commit value)) (t : Term) : P t := by
  refine @Term.rec P (fun ts => ∀ t ∈ ts, P t) absent text number vec ref call swizzle raw shared
    define commit ?_ ?_ t
  · intro t member
    cases member
  · intro head rest here there t member
    rcases List.mem_cons.mp member with rfl | member
    · exact here
    · exact there t member

mutual
/-- Whether a term is an expression: nothing in it is absent or a statement, and literal text stands
only among the parts of raw text. -/
def isExpression : Term → Bool
  | number _ | ref _ => true
  | vec _ args | call _ args => areExpressions args
  | swizzle t _ | shared _ _ t _ => t.isExpression
  | raw ps => areParts ps
  | absent | text _ | define .. | commit _ => false

def areExpressions : List Term → Bool
  | [] => true
  | t :: ts => t.isExpression && areExpressions ts

def areParts : List Term → Bool
  | [] => true
  | t :: ts => (t.isText || t.isExpression) && areParts ts
end

/-- Whether a term is a statement over an expression. -/
def isStatement : Term → Bool
  | define _ _ init => init.isExpression
  | commit value => value.isExpression
  | _ => false

@[simp] theorem areExpressions_eq (ts : List Term) : areExpressions ts = ts.all isExpression := by
  induction ts with
  | nil => rfl
  | cons t ts ih => rw [areExpressions, List.all_cons, ih]

@[simp] theorem areParts_eq (ts : List Term) :
    areParts ts = ts.all fun t => t.isText || t.isExpression := by
  induction ts with
  | nil => rfl
  | cons t ts ih => rw [areParts, List.all_cons, ih]

theorem walkParts_eq (ps : List Term) : walkParts ps = walkAll (ps.filter (!·.isText)) := by
  induction ps with
  | nil => rfl
  | cons p ps ih =>
    cases p with
    | text s => exact ih
    | _ => simp [walkParts, walkAll, isText, ih]

attribute [simp] isExpression

section Gather

variable {α : Type}

mutual
/-- What `f` reads off the leaves of a term, in source order. A shared variable is a leaf; what its
initializer holds counts too when `deep` says so. -/
def gather (f : Term → List α) (deep : Bool) : Term → List α
  | vec _ args | call _ args | raw args => gatherAll f deep args
  | swizzle t _ | define _ _ t | commit t => t.gather f deep
  | shared key type init stem =>
    f (shared key type init stem) ++ if deep then init.gather f deep else []
  | absent => f absent
  | text s => f (text s)
  | number x => f (number x)
  | ref name => f (ref name)

def gatherAll (f : Term → List α) (deep : Bool) : List Term → List α
  | [] => []
  | t :: ts => t.gather f deep ++ gatherAll f deep ts
end

@[simp] theorem gatherAll_eq (f : Term → List α) (deep : Bool) (ts : List Term) :
    gatherAll f deep ts = ts.flatMap (gather f deep) := by
  induction ts with
  | nil => rfl
  | cons t ts ih => rw [gatherAll, List.flatMap_cons, ih]

attribute [simp] gather

end Gather

@[simp] def refName : Term → List String
  | ref name => [name]
  | _ => []

@[simp] def sharedLeaf : Term → List Term
  | shared key type init stem => [shared key type init stem]
  | _ => []

@[simp] def literal : Term → List Binary64
  | number x => [x]
  | _ => []

/-- The names a term refers to, in source order. Those in the initializer of a shared variable
belong to the variable's own definition. -/
abbrev names : Term → List String := gather refName false

/-- The outermost shared variables of a term. -/
abbrev outerShared : Term → List Term := gather sharedLeaf false

/-- The shared variables of a term at any depth. -/
abbrev allShared : Term → List Term := gather sharedLeaf true

/-- The numbers written in a term at any depth. -/
abbrev literals : Term → List Binary64 := gather literal true

/-- The literals of a term all have a text. -/
def IsFinite (t : Term) : Prop := ∀ x ∈ t.literals, x.isFinite = true

theorem gather_subset_deep {α : Type} (f : Term → List α) (t : Term) :
    t.gather f false ⊆ t.gather f true := by
  induction t using Term.induction with
  | vec _ _ ih | call _ _ ih | raw _ ih =>
    simp only [gather, gatherAll_eq]
    intro a member
    obtain ⟨t, within, found⟩ := List.mem_flatMap.mp member
    exact List.mem_flatMap.mpr ⟨t, within, ih t within found⟩
  | swizzle _ _ ih | define _ _ _ ih | commit _ ih => simpa using ih
  | absent | text | number | ref | shared => simp

/-- What the initializer of a shared variable holds, the whole term holds. -/
theorem gather_init_subset {α : Type} {f : Term → List α} {key : Key} {type : String} {init : Term}
    {stem : String} {t : Term} (member : shared key type init stem ∈ t.allShared) :
    init.gather f true ⊆ t.gather f true := by
  intro a inside
  induction t using Term.induction with
  | vec _ _ ih | call _ _ ih | raw _ ih =>
    simp only [gather, gatherAll_eq, List.mem_flatMap] at member ⊢
    obtain ⟨t, within, found⟩ := member
    exact ⟨t, within, ih t within found⟩
  | swizzle _ _ ih | define _ _ _ ih | commit _ ih => simpa using ih (by simpa using member)
  | shared key' type' init' stem' ih =>
    simp only [gather, sharedLeaf, if_true, List.mem_append, List.mem_singleton] at member ⊢
    rcases member with same | member
    · cases same
      exact .inr inside
    · exact .inr (ih member)
  | absent | text | number | ref => simp at member

theorem isExpression_init {key : Key} {type : String} {init : Term} {stem : String} {t : Term}
    (shape : t.isExpression = true) (member : shared key type init stem ∈ t.allShared) :
    init.isExpression = true := by
  induction t using Term.induction with
  | vec _ _ ih | call _ _ ih =>
    simp only [gather, gatherAll_eq, List.mem_flatMap] at member
    obtain ⟨t, within, found⟩ := member
    simp only [isExpression, areExpressions_eq, List.all_eq_true] at shape
    exact ih t within (shape t within) found
  | raw _ ih =>
    simp only [gather, gatherAll_eq, List.mem_flatMap] at member
    obtain ⟨t, within, found⟩ := member
    simp only [isExpression, areParts_eq, List.all_eq_true, Bool.or_eq_true] at shape
    rcases shape t within with written | expression
    · cases t <;> simp [isText] at written found
    · exact ih t within expression found
  | swizzle _ _ ih => exact ih (by simpa using shape) (by simpa using member)
  | shared key' type' init' stem' ih =>
    simp only [gather, sharedLeaf, if_true, List.mem_append, List.mem_singleton] at member
    rcases member with same | member
    · cases same
      simpa using shape
    · exact ih (by simpa using shape) member
  | define | commit | absent | text | number | ref => simp at shape member

theorem isExpression_of_mem_parts {t part : Term}
    (shape : t.isExpression = true ∨ t.isStatement = true) (member : part ∈ t.parts) :
    part.isExpression = true := by
  cases t with
  | raw ps =>
    simp only [parts, List.mem_filter, Bool.not_eq_true'] at member
    simp only [isExpression, areParts_eq, List.all_eq_true, isStatement, Bool.false_eq_true,
      or_false] at shape
    simpa [member.2] using shape part member.1
  | _ => simp_all [parts, isStatement]

/-- Literal text holds nothing that a leaf other than text gives. -/
theorem flatMap_gather_filter {α : Type} (f : Term → List α) (deep : Bool)
    (blank : ∀ s, f (.text s) = []) (ps : List Term) :
    (ps.filter (!·.isText)).flatMap (gather f deep) = ps.flatMap (gather f deep) := by
  induction ps with
  | nil => rfl
  | cons p ps ih =>
    rw [List.filter_cons, List.flatMap_cons, ← ih]
    cases p <;> simp [isText, blank]

/-- A term that is no leaf refers to the names of its parts. -/
theorem flatMap_names_parts (t : Term) (notRef : ∀ name, t ≠ ref name)
    (notShared : ∀ key type init stem, t ≠ shared key type init stem) :
    t.parts.flatMap names = t.names := by
  cases t with
  | raw ps => simpa [parts] using flatMap_gather_filter refName false (fun _ => rfl) ps
  | ref name => exact absurd rfl (notRef name)
  | shared key type init stem => exact absurd rfl (notShared key type init stem)
  | _ => simp [parts]

theorem flatMap_names_of_refsOf (stack : List Term) (found : List String)
    (success : refsOf stack = .ok found) : found = stack.flatMap names := by
  fun_induction refsOf stack generalizing found with
  | case1 => simpa using success.symm
  | case2 name stack ih =>
    obtain ⟨rest, ran, same⟩ := Outcome.bind_eq_ok_iff.mp success
    cases same
    simp [ih rest ran]
  | case3 key type init stem stack ih => simpa using ih found success
  | case4 | case5 => cases success
  | case6 t stack notRef notShared notAbsent notText ih =>
    rw [ih found success, List.flatMap_append, List.flatMap_cons,
      flatMap_names_parts t notRef notShared]

theorem refsOf_isOk (stack : List Term)
    (shape : ∀ t ∈ stack, t.isExpression = true ∨ t.isStatement = true) :
    ∃ found, refsOf stack = .ok found := by
  fun_induction refsOf stack with
  | case1 => exact ⟨[], rfl⟩
  | case2 name stack ih =>
    obtain ⟨rest, ran⟩ := ih fun t member => shape t (by simp [member])
    exact ⟨name :: rest, by rw [ran]; rfl⟩
  | case3 key type init stem stack ih => exact ih fun t member => shape t (by simp [member])
  | case4 | case5 => simp [isStatement] at shape
  | case6 t stack notRef notShared notAbsent notText ih =>
    apply ih
    intro part member
    rcases List.mem_append.mp member with member | member
    · exact .inl (isExpression_of_mem_parts (shape t (by simp)) member)
    · exact shape part (by simp [member])

/-- Whatever `refs` finds are the names of the term. -/
theorem names_of_refs {t : Term} {found : List String} (success : t.refs = .ok found) :
    found = t.names := by
  simpa using flatMap_names_of_refsOf [t] found success

theorem refs_eq_names (t : Term) (shape : t.isExpression = true ∨ t.isStatement = true) :
    t.refs = .ok t.names := by
  obtain ⟨found, success⟩ := refsOf_isOk [t] (by simpa using shape)
  rw [← names_of_refs success]
  exact success

end ShaderFlow.Term
