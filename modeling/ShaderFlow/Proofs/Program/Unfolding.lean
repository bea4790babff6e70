import Mathlib.Logic.Function.Iterate
import ShaderFlow.Proofs.Fragment.Finish

set_option autoImplicit false

namespace ShaderFlow

namespace Definition

variable {ds : List Definition}

/-- What a reference unfolds to: the initializer of its definition, if it has one. -/
def expansion (ds : List Definition) (n : String) : Term :=
  match Resolution.definitionOf? ds n with
  | some d => d.init
  | none => .ref n

/-- The term with each reference replaced by the initializer of its definition. -/
def unfold (ds : List Definition) (t : Term) : Term := t.replaceRefs (expansion ds)

theorem expansion_eq (nodup : (ds.map name).Nodup) {d : Definition} (member : d ∈ ds) :
    expansion ds d.name = d.init := by
  unfold expansion Resolution.definitionOf?
  cases found : ds.find? (·.name == d.name) with
  | none => simpa using List.find?_eq_none.mp found d member
  | some e =>
    have same : e.name = d.name := by simpa using List.find?_some found
    rw [List.inj_on_of_nodup_map nodup (List.mem_of_find?_eq_some found) member same]

theorem expansion_eq_ref {n : String} (absent : n ∉ ds.map name) : expansion ds n = .ref n := by
  have missing : Resolution.definitionOf? ds n = none := by
    apply List.find?_eq_none.mpr
    intro d member same
    exact absent (List.mem_map.mpr ⟨d, member, by simpa using same⟩)
  rw [expansion, missing]

/-- Some rounds replace each reference by what these rounds make of it alone. -/
theorem unfold_iterate_eq (ds : List Definition) (rounds : Nat) (t : Term) :
    ((unfold ds)^[rounds]) t = t.replaceRefs fun n => ((unfold ds)^[rounds]) (.ref n) := by
  induction rounds with
  | zero => exact t.replaceRefs_ref.symm
  | succ rounds ih =>
    simp only [Function.iterate_succ_apply']
    rw [ih, unfold, Term.replaceRefs_replaceRefs]
    rfl

theorem unfold_iterate_ref {n : String} (absent : n ∉ ds.map name) (rounds : Nat) :
    ((unfold ds)^[rounds]) (.ref n) = .ref n :=
  Function.iterate_fixed (expansion_eq_ref absent) rounds

theorem unfold_iterate_succ_ref (nodup : (ds.map name).Nodup) {d : Definition} (member : d ∈ ds)
    (rounds : Nat) : ((unfold ds)^[rounds + 1]) (.ref d.name) = ((unfold ds)^[rounds]) d.init := by
  have once : unfold ds (.ref d.name) = d.init := expansion_eq nodup member
  rw [Function.iterate_succ_apply, once]

/-- A round of unfolding changes no meaning. -/
theorem inlineWith_unfold (nodup : (ds.map name).Nodup) (inOrder : InOrder ds) {t : Term}
    (bound : ∀ n ∈ t.names, n ∈ ds.map name) :
    (unfold ds t).inlineWith (environment ds) = t.inlineWith (environment ds) := by
  refine Term.inlineWith_replaceRefs fun n member => ?_
  obtain ⟨d, inside, rfl⟩ := List.mem_map.mp (bound n member)
  rw [expansion_eq nodup inside, environment_eq nodup inOrder inside]

theorem outerShared_unfold (nodup : (ds.map name).Nodup)
    (unshared : ∀ d ∈ ds, d.init.outerShared = []) {t : Term}
    (bound : ∀ n ∈ t.names, n ∈ ds.map name) (plain : t.outerShared = []) :
    (unfold ds t).outerShared = [] := by
  refine Term.outerShared_replaceRefs plain fun n member => ?_
  obtain ⟨d, inside, rfl⟩ := List.mem_map.mp (bound n member)
  rw [expansion_eq nodup inside]
  exact unshared d inside

/-- A round of unfolding leads from the definitions up to some place to those before it. -/
theorem names_unfold (nodup : (ds.map name).Nodup) (inOrder : InOrder ds)
    {front back : List Definition} {last : Definition} (split : ds = front ++ last :: back)
    {t : Term} (bound : ∀ n ∈ t.names, n ∈ (front ++ [last]).map name) :
    ∀ n ∈ (unfold ds t).names, n ∈ front.map name := by
  intro n member
  rw [unfold, Term.names_replaceRefs] at member
  obtain ⟨m, inside, refers⟩ := List.mem_flatMap.mp member
  obtain ⟨d, listed, rfl⟩ := List.mem_map.mp (bound m inside)
  have known : d ∈ ds := by
    rw [split]
    rw [← List.singleton_append, ← List.append_assoc]
    exact List.mem_append_left _ listed
  rw [expansion_eq nodup known] at refers
  rcases List.mem_append.mp listed with earlier | here
  · obtain ⟨front', back', rfl⟩ := List.append_of_mem earlier
    have before : n ∈ front'.map name :=
      inOrder front' d (back' ++ last :: back) (by simp [split]) n refers
    rw [List.map_append]
    exact List.mem_append_left _ before
  · obtain rfl := List.mem_singleton.mp here
    exact inOrder front d back split n refers

/-- Unfolding as often as there are definitions that matter leaves the meaning itself. -/
theorem unfold_iterate (nodup : (ds.map name).Nodup) (inOrder : InOrder ds)
    (unshared : ∀ d ∈ ds, d.init.outerShared = []) {front back : List Definition}
    (split : ds = front ++ back) {t : Term} (bound : ∀ n ∈ t.names, n ∈ front.map name)
    (plain : t.outerShared = []) :
    (((unfold ds)^[front.length]) t).names = [] ∧
      (((unfold ds)^[front.length]) t).ungroup = t.inlineWith (environment ds) := by
  induction front using List.reverseRecOn generalizing back t with
  | nil =>
    have unnamed : t.names = [] := List.eq_nil_iff_forall_not_mem.mpr fun n member => by
      simpa using bound n member
    exact ⟨unnamed, (Term.inlineWith_eq_ungroup unnamed plain).symm⟩
  | append_singleton front last ih =>
    have known : ∀ n ∈ t.names, n ∈ ds.map name := by
      intro n member
      rw [split, List.map_append]
      exact List.mem_append_left _ (bound n member)
    rw [List.length_append, List.length_singleton, Function.iterate_succ_apply,
      ← inlineWith_unfold nodup inOrder known]
    have split' : ds = front ++ last :: back := by simp [split]
    exact ih split' (names_unfold nodup inOrder split' bound)
      (outerShared_unfold nodup unshared known plain)

end Definition

/-- The commit statement of a closed program unfolds to its meaning. -/
theorem Program.Closed.unfold_commit {p : Program} (closed : p.Closed) :
    (((Definition.unfold p.definitions)^[p.definitions.length]) p.commit).names = [] ∧
      (((Definition.unfold p.definitions)^[p.definitions.length]) p.commit).ungroup =
        p.commit.inlineWith (Definition.environment p.definitions) :=
  Definition.unfold_iterate closed.nodup closed.inOrder closed.unshared
    (List.append_nil _).symm closed.bound closed.commitUnshared

end ShaderFlow
