import ShaderFlow.Proofs.Term.Shape

set_option autoImplicit false

/-
All traversals of a term go through it in one order, that of a recursive walk. The stack of `refs`
finds the references that the walk meets when it stops at shared variables. `mapShared` asks its
function for exactly the shared variables of that walk, one after the other, and what the mapped
expression refers to is what the walk meets, with the references of each answer in the place of the
shared variable that was asked for.
-/

namespace ShaderFlow.Term

section Visit

mutual
/-- What a recursive walk meets, depth first and in source order, when it goes on below a term only
where `enter` lets it. Literal text is not met. -/
def visit (enter : Term → Bool) : Term → List Term
  | absent | text _ => []
  | number x => [number x]
  | ref name => [ref name]
  | vec type args => vec type args :: if enter (vec type args) then visitAll enter args else []
  | call func args => call func args :: if enter (call func args) then visitAll enter args else []
  | swizzle t cs => swizzle t cs :: if enter (swizzle t cs) then t.visit enter else []
  | raw ps => raw ps :: if enter (raw ps) then visitAll enter ps else []
  | shared key type t stem =>
    shared key type t stem :: if enter (shared key type t stem) then t.visit enter else []
  | define name type t =>
    define name type t :: if enter (define name type t) then t.visit enter else []
  | commit t => commit t :: if enter (commit t) then t.visit enter else []

def visitAll (enter : Term → Bool) : List Term → List Term
  | [] => []
  | t :: ts => t.visit enter ++ visitAll enter ts
end

@[simp] theorem visitAll_eq (enter : Term → Bool) (ts : List Term) :
    visitAll enter ts = ts.flatMap (visit enter) := by
  induction ts with
  | nil => rfl
  | cons t ts ih => rw [visitAll, List.flatMap_cons, ih]

attribute [simp] visit

theorem flatMap_visit_filter (enter : Term → Bool) (ps : List Term) :
    (ps.filter (!·.isText)).flatMap (visit enter) = ps.flatMap (visit enter) := by
  induction ps with
  | nil => rfl
  | cons p ps ih =>
    rw [List.filter_cons, List.flatMap_cons, ← ih]
    cases p <;> simp [isText]

theorem walkAll_eq_ok {ts : List Term} (each : ∀ t ∈ ts, t.walk = .ok (t.visit fun _ => true)) :
    walkAll ts = .ok (ts.flatMap (visit fun _ => true)) := by
  induction ts with
  | nil => rfl
  | cons t ts ih =>
    rw [walkAll, each t List.mem_cons_self,
      ih fun t member => each t (List.mem_cons_of_mem _ member)]
    rfl

/-- The walk of a whole term enters everything. -/
theorem walk_eq_visit {t : Term} (shape : t.isExpression = true ∨ t.isStatement = true) :
    t.walk = .ok (t.visit fun _ => true) := by
  induction t using Term.induction with
  | number | ref => rfl
  | vec _ args ih | call _ args ih =>
    have inside := walkAll_eq_ok fun t member =>
      ih t member (.inl (isExpression_of_mem_parts shape member))
    rw [walk, inside, visit, visitAll_eq]
    rfl
  | raw ps ih =>
    have inside := walkAll_eq_ok fun p member =>
      ih p (List.mem_of_mem_filter member) (.inl (isExpression_of_mem_parts shape member))
    rw [walk, walkParts_eq, inside, flatMap_visit_filter, visit, visitAll_eq]
    rfl
  | swizzle _ _ ih | shared _ _ _ _ ih | define _ _ _ ih | commit _ ih =>
    rw [walk, ih (.inl (isExpression_of_mem_parts shape List.mem_cons_self))]
    rfl
  | absent | text => simp [isStatement] at shape

end Visit

/-- What a walk meets that stops at shared variables. -/
def surface : Term → List Term := visit fun t => !t.isShared

section Surface

@[simp] theorem surface_vec (type : VecType) (args : List Term) :
    (vec type args).surface = vec type args :: args.flatMap surface :=
  congrArg (vec type args :: ·) (visitAll_eq _ args)

@[simp] theorem surface_call (func : String) (args : List Term) :
    (call func args).surface = call func args :: args.flatMap surface :=
  congrArg (call func args :: ·) (visitAll_eq _ args)

@[simp] theorem surface_raw (parts : List Term) :
    (raw parts).surface = raw parts :: parts.flatMap surface :=
  congrArg (raw parts :: ·) (visitAll_eq _ parts)

@[simp] theorem surface_swizzle (base : Term) (components : String) :
    (swizzle base components).surface = swizzle base components :: base.surface := rfl

@[simp] theorem surface_define (name type : String) (init : Term) :
    (define name type init).surface = define name type init :: init.surface := rfl

@[simp] theorem surface_commit (value : Term) :
    (commit value).surface = commit value :: value.surface := rfl

@[simp] theorem surface_shared (key : Key) (type : String) (init : Term) (stem : String) :
    (shared key type init stem).surface = [shared key type init stem] := rfl

@[simp] theorem surface_ref (name : String) : (ref name).surface = [ref name] := rfl

@[simp] theorem surface_number (x : Binary64) : (number x).surface = [number x] := rfl

@[simp] theorem surface_text (s : String) : (text s).surface = [] := rfl

@[simp] theorem surface_absent : absent.surface = [] := rfl

/-- What is read off references and shared variables alone is read off the terms that a walk meets.
-/
theorem flatMap_surface {α : Type} {f : Term → List α}
    (blank : ∀ u, refName u = [] → sharedLeaf u = [] → f u = []) (t : Term) :
    t.surface.flatMap f = t.gather f false := by
  induction t using Term.induction with
  | vec type args ih =>
    simpa [blank (vec type args) rfl rfl, List.flatMap_assoc] using List.flatMap_congr ih
  | call func args ih =>
    simpa [blank (call func args) rfl rfl, List.flatMap_assoc] using List.flatMap_congr ih
  | raw parts ih =>
    simpa [blank (raw parts) rfl rfl, List.flatMap_assoc] using List.flatMap_congr ih
  | swizzle base components ih => simpa [blank (swizzle base components) rfl rfl] using ih
  | define name type init ih => simpa [blank (define name type init) rfl rfl] using ih
  | commit value ih => simpa [blank (commit value) rfl rfl] using ih
  | absent => simp [blank absent rfl rfl]
  | text s => simp [blank (text s) rfl rfl]
  | number | ref | shared => simp

theorem flatMap_refName_surface (t : Term) : t.surface.flatMap refName = t.names :=
  flatMap_surface (fun _ blank _ => blank) t

theorem filter_isShared_eq (ts : List Term) : ts.filter isShared = ts.flatMap sharedLeaf := by
  induction ts with
  | nil => rfl
  | cons t ts ih =>
    rw [List.flatMap_cons, ← ih]
    cases t with
    | shared key type init stem => exact List.filter_cons_of_pos rfl
    | _ => exact List.filter_cons_of_neg (by simp [isShared])

theorem filter_isShared_surface (t : Term) : t.surface.filter isShared = t.outerShared := by
  rw [filter_isShared_eq]
  exact flatMap_surface (fun _ _ blank => blank) t

end Surface

section Refill

mutual
/-- The term with answers in the place of its outermost shared variables, one for each in source
order. -/
def refill : Term → List Term → Term
  | shared key type init stem, answers => answers.headD (shared key type init stem)
  | vec type args, answers => vec type (refillAll args answers)
  | call func args, answers => call func (refillAll args answers)
  | swizzle t cs, answers => swizzle (t.refill answers) cs
  | raw ps, answers => raw (refillAll ps answers)
  | define name type t, answers => define name type (t.refill answers)
  | commit t, answers => commit (t.refill answers)
  | t, _ => t

def refillAll : List Term → List Term → List Term
  | [], _ => []
  | t :: ts, answers =>
    t.refill (answers.take t.outerShared.length) :: refillAll ts (answers.drop t.outerShared.length)
end

/-- What holds of each item with some of the answers holds of the list with all of them. -/
theorem forall_mem_refillAll {P : Term → Prop} {ts answers : List Term}
    (each : ∀ t ∈ ts, ∀ taken, taken ⊆ answers → P (t.refill taken)) :
    ∀ u ∈ refillAll ts answers, P u := by
  induction ts generalizing answers with
  | nil => simp [refillAll]
  | cons t ts ih =>
    intro u member
    rcases List.mem_cons.mp member with rfl | member
    · exact each t List.mem_cons_self _ (List.take_subset _ _)
    · refine ih (fun t inside taken within => ?_) u member
      have within := List.Subset.trans within (List.drop_subset _ _)
      exact each t (List.mem_cons_of_mem _ inside) taken within

theorem isExpression_refill {t : Term} {answers : List Term} (shape : t.isExpression = true)
    (each : ∀ u ∈ answers, u.isExpression = true) : (t.refill answers).isExpression = true := by
  induction t using Term.induction generalizing answers with
  | number | ref => rfl
  | shared key type init stem =>
    cases answers with
    | nil => exact shape
    | cons u rest => exact each u List.mem_cons_self
  | vec type args ih | call func args ih =>
    simp only [refill, isExpression, areExpressions_eq, List.all_eq_true] at shape ⊢
    exact forall_mem_refillAll fun t member taken within =>
      ih t member (shape t member) fun u inside => each u (within inside)
  | swizzle base components ih => exact ih (by simpa using shape) each
  | raw ps ih =>
    simp only [refill, isExpression, areParts_eq, List.all_eq_true, Bool.or_eq_true] at shape ⊢
    refine forall_mem_refillAll fun p member taken within => ?_
    rcases shape p member with written | expression
    · cases p with
      | text s => exact .inl rfl
      | _ => cases written
    · exact .inr (ih p member expression fun u inside => each u (within inside))
  | absent | text | define | commit => simp at shape

end Refill

/-- The references among what a walk meets, with lists of references in the place of the shared
variables, one for each in turn. -/
def splice : List Term → List (List String) → List String
  | [], _ => []
  | t :: met, given =>
    if t.isShared then given.headD [] ++ splice met given.tail else refName t ++ splice met given

section Splice

theorem splice_append {met met' : List Term} {given given' : List (List String)}
    (enough : given.length = (met.flatMap sharedLeaf).length) :
    splice (met ++ met') (given ++ given') = splice met given ++ splice met' given' := by
  induction met generalizing given with
  | nil =>
    obtain rfl := List.eq_nil_of_length_eq_zero enough
    rfl
  | cons t met ih =>
    cases t with
    | shared key type init stem =>
      cases given with
      | nil => simp at enough
      | cons first rest =>
        have tail : splice (met ++ met') (rest ++ given') = splice met rest ++ splice met' given' :=
          ih (by simpa using enough)
        simpa [splice, isShared] using tail
    | _ => simpa [splice, isShared] using ih enough

theorem flatMap_names_refillAll {ts answers : List Term}
    (each : ∀ t ∈ ts, ∀ taken, taken.length = t.outerShared.length →
      (t.refill taken).names = splice t.surface (taken.map names))
    (answered : answers.length = (ts.flatMap outerShared).length) :
    (refillAll ts answers).flatMap names = splice (ts.flatMap surface) (answers.map names) := by
  induction ts generalizing answers with
  | nil => rfl
  | cons t ts ih =>
    rw [List.flatMap_cons, List.length_append] at answered
    have first : (answers.take t.outerShared.length).length = t.outerShared.length := by
      rw [List.length_take]
      omega
    have rest : (answers.drop t.outerShared.length).length = (ts.flatMap outerShared).length := by
      rw [List.length_drop]
      omega
    -- The walk of the first item takes as many answers as it meets shared variables.
    have enough : ((answers.take t.outerShared.length).map names).length =
        (t.surface.flatMap sharedLeaf).length := by
      rw [List.length_map, first, ← filter_isShared_eq, filter_isShared_surface]
    calc (refillAll (t :: ts) answers).flatMap names
        = (t.refill (answers.take t.outerShared.length)).names ++
            (refillAll ts (answers.drop t.outerShared.length)).flatMap names := rfl
      _ = splice t.surface ((answers.take t.outerShared.length).map names) ++
            splice (ts.flatMap surface) ((answers.drop t.outerShared.length).map names) := by
          rw [each t List.mem_cons_self _ first,
            ih (fun t member => each t (List.mem_cons_of_mem _ member)) rest]
      _ = splice ((t :: ts).flatMap surface) (answers.map names) := by
          rw [← splice_append enough, ← List.map_append, List.take_append_drop, List.flatMap_cons]

/-- A refilled term refers to what it referred to before, and to what its answers refer to. -/
theorem names_refill {t : Term} {answers : List Term}
    (answered : answers.length = t.outerShared.length) :
    (t.refill answers).names = splice t.surface (answers.map names) := by
  induction t using Term.induction generalizing answers with
  | shared key type init stem =>
    obtain ⟨u, rfl⟩ := List.length_eq_one_iff.mp (by simpa using answered)
    simp [refill, splice, isShared]
  | vec _ args ih | call _ args ih | raw args ih =>
    have inside := flatMap_names_refillAll (fun t member taken => ih t member)
      (by simpa using answered)
    simpa [refill, splice, isShared] using inside
  | swizzle _ _ ih | define _ _ _ ih | commit _ ih =>
    simpa [refill, splice, isShared] using ih (by simpa using answered)
  | absent | text | number | ref => simp [refill, splice, isShared]

end Splice

section MapShared

variable {m : Type → Type} [Monad m]

/-- The mapping of a part of raw text. -/
def mapSharedPart [MonadExceptOf Error m] (f : Term → m Term) : Term → m Term
  | text s => pure (text s)
  | t => t.mapShared f

variable [LawfulMonad m]

/-- Only lists with an answer for each item come out of a map. -/
theorem mapM_bind_congr {α β γ : Type} {f : α → m β} {xs : List α} {next next' : List β → m γ}
    (same : ∀ ys, ys.length = xs.length → next ys = next' ys) :
    xs.mapM f >>= next = xs.mapM f >>= next' := by
  induction xs generalizing next next' with
  | nil => simpa using same [] rfl
  | cons x xs ih =>
    simp only [List.mapM_cons, bind_assoc, pure_bind]
    refine bind_congr fun y => ih fun ys answered => ?_
    exact same (y :: ys) (by simp [answered])

/-- Items that are refilled one after the other are refilled as a list. -/
theorem mapM_eq_refillAll {f work : Term → m Term} {ts : List Term}
    (each : ∀ t ∈ ts, work t = t.refill <$> t.outerShared.mapM f) :
    ts.mapM work = refillAll ts <$> (ts.flatMap outerShared).mapM f := by
  induction ts with
  | nil => simp [refillAll]
  | cons t ts ih =>
    rw [List.mapM_cons, List.flatMap_cons, List.mapM_append, each t List.mem_cons_self,
      ih fun t member => each t (List.mem_cons_of_mem _ member)]
    simp only [map_bind, bind_map_left, map_pure]
    -- The answers for the first item are as many as its shared variables, so they are what it
    -- takes.
    refine mapM_bind_congr fun first answered => bind_congr fun rest => ?_
    simp [refillAll, ← answered]

variable [MonadExceptOf Error m] {f : Term → m Term}

theorem mapSharedAll_eq_mapM (ts : List Term) : mapSharedAll f ts = ts.mapM (mapShared f) := by
  induction ts with
  | nil => rfl
  | cons t ts ih => rw [mapSharedAll, List.mapM_cons, ih]

theorem mapSharedParts_eq_mapM (ps : List Term) :
    mapSharedParts f ps = ps.mapM (mapSharedPart f) := by
  induction ps with
  | nil => rfl
  | cons p ps ih => cases p <;> simp [mapSharedParts, List.mapM_cons, ih, mapSharedPart]

/-- The effects of a mapping are those of its function on the outermost shared variables, in order.
-/
theorem mapShared_eq_refill {t : Term} (shape : t.isExpression = true) :
    t.mapShared f = t.refill <$> t.outerShared.mapM f := by
  induction t using Term.induction with
  | number | ref => simp [mapShared, refill]
  | shared key type init stem => simp [mapShared, refill]
  | vec type args ih | call func args ih =>
    have inside := mapM_eq_refillAll fun t member =>
      ih t member (isExpression_of_mem_parts (.inl shape) member)
    rw [mapShared, mapSharedAll_eq_mapM, inside]
    simp [refill]
  | swizzle base components ih =>
    rw [mapShared, ih (by simpa using shape)]
    simp [refill]
  | raw ps ih =>
    have each : ∀ p ∈ ps, mapSharedPart f p = p.refill <$> p.outerShared.mapM f := by
      intro p member
      simp only [isExpression, areParts_eq, List.all_eq_true, Bool.or_eq_true] at shape
      rcases shape p member with written | expression
      · cases p with
        | text s => simp [mapSharedPart, refill]
        | _ => cases written
      · cases p with
        | text s => cases expression
        | _ => exact ih _ member expression
    rw [mapShared, mapSharedParts_eq_mapM, mapM_eq_refillAll each]
    simp [refill]
  | absent | text | define | commit => simp at shape

end MapShared

theorem mapM_refs {ts : List Term} (each : ∀ t ∈ ts, t.isExpression = true) :
    ts.mapM refs = .ok (ts.map names) := by
  rw [Outcome.mapM_eq_ok_iff, List.forall₂_map_right_iff, List.forall₂_same]
  exact fun t member => refs_eq_names t (.inl (each t member))

/-- The stack finds the references that a walk meets when it stops at shared variables. A mapping
runs its function on the shared variables of that walk, in order and on nothing else, whatever
effects the function has; and the references of the answers stand where the walk met what they
answer. -/
theorem traverses_in_source_order :
    (∀ t : Term, t.isExpression = true ∨ t.isStatement = true →
      t.walk = .ok (t.visit fun _ => true) ∧ t.refs = .ok (t.surface.flatMap refName)) ∧
    ∀ e : Term, e.isExpression = true →
      (∀ (m : Type → Type) [Monad m] [LawfulMonad m] [MonadExceptOf Error m] (f : Term → m Term),
        e.mapShared f = e.refill <$> (e.surface.filter isShared).mapM f) ∧
      ∀ answers : List Term, answers.length = (e.surface.filter isShared).length →
        (∀ u ∈ answers, u.isExpression = true) →
        ∃ found, answers.mapM refs = .ok found ∧
          (e.refill answers).refs = .ok (splice e.surface found) := by
  refine ⟨fun t shape => ⟨walk_eq_visit shape, ?_⟩, fun e shape => ⟨?_, ?_⟩⟩
  · rw [flatMap_refName_surface]
    exact refs_eq_names t shape
  · intro m _ _ _ f
    rw [filter_isShared_surface]
    exact mapShared_eq_refill shape
  · intro answers answered each
    rw [filter_isShared_surface] at answered
    refine ⟨answers.map names, mapM_refs each, ?_⟩
    rw [refs_eq_names _ (.inl (isExpression_refill shape each)), names_refill answered]

/-- A texture sample. -/
def sampled : Term := shared (.text "image") "vec4" (ref "uv") "sample"

/-- A variable that scales another one. -/
def scaled : Term :=
  shared (.text "scaled") "vec4" (raw [sampled, text " * ", ref "gain"]) "scaled"

/-- An expression over both, where one of them occurs in the other as well. -/
def mixed : Term :=
  raw [sampled, text " + ", call "mix" [ref "base", swizzle scaled "r", ref "base"]]

/-- Notes a shared variable and answers its initializer. -/
def openShared : Term → StateT (List Term) (Except Error) Term
  | shared key type init stem => do
    modify (· ++ [shared key type init stem])
    return init
  | _ => throw .notExpression

theorem traverses_in_source_order_mixed :
    mixed.isExpression = true ∧ mixed.refs = .ok ["base", "base"] ∧
      (mixed.mapShared openShared).run [] =
        .ok (mixed.refill [ref "uv", raw [sampled, text " * ", ref "gain"]], [sampled, scaled]) ∧
      (mixed.refill [ref "uv", raw [sampled, text " * ", ref "gain"]]).refs =
        .ok ["uv", "base", "gain", "base"] := by
  obtain ⟨walks, maps⟩ := traverses_in_source_order
  obtain ⟨calls, answered⟩ := maps mixed rfl
  obtain ⟨found, read, final⟩ :=
    answered [ref "uv", raw [sampled, text " * ", ref "gain"]] rfl (by decide)
  refine ⟨rfl, (walks mixed (.inl rfl)).2, ?_, ?_⟩
  · rw [calls]
    rfl
  · have first : (ref "uv").refs = .ok ["uv"] := (walks _ (.inl rfl)).2
    have second : (raw [sampled, text " * ", ref "gain"]).refs = .ok ["gain"] :=
      (walks _ (.inl rfl)).2
    rw [final]
    simp only [List.mapM_cons, first, second] at read
    cases read
    rfl

end ShaderFlow.Term
