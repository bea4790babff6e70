import Mathlib.Data.List.Nodup
import Mathlib.Logic.Relation
import ShaderFlow.Program.Resolution
import ShaderFlow.Proofs.Term.Alike

set_option autoImplicit false

/-
What the definitions of a statement list refer to, and what its table keeps of them: one definition
for each name, which counts as one with all others of that name. There is no table exactly when two
definitions of one name do not count as one.
-/

namespace ShaderFlow.Definition

/-- A name refers to another one when a definition of it does. -/
def Refers (ds : List Definition) (a b : String) : Prop :=
  ∃ d ∈ ds, d.name = a ∧ b ∈ d.init.names

/-- The names that some names lead to by following references. -/
def Reached (ds : List Definition) (roots : List String) (n : String) : Prop :=
  ∃ root ∈ roots, Relation.ReflTransGen (Refers ds) root n

/-- Two definitions of a name that do not count as one. -/
def Conflict (ds : List Definition) (n : String) : Prop :=
  ∃ d ∈ ds, ∃ e ∈ ds, d.name = n ∧ e.name = n ∧ d.alike e = false

theorem alike_iff (d e : Definition) :
    d.alike e = true ↔ d.name = e.name ∧ d.type = e.type ∧ d.init.canonical = e.init.canonical := by
  simp only [alike, Bool.and_eq_true, beq_iff_eq, Term.alike_iff, and_assoc]

theorem alike_symm {d e : Definition} (same : d.alike e = true) : e.alike d = true := by
  rw [alike_iff] at same ⊢
  exact ⟨same.1.symm, same.2.1.symm, same.2.2.symm⟩

theorem alike_trans {d e f : Definition} (first : d.alike e = true) (second : e.alike f = true) :
    d.alike f = true := by
  rw [alike_iff] at first second ⊢
  exact ⟨first.1.trans second.1, first.2.1.trans second.2.1, first.2.2.trans second.2.2⟩

theorem alike_refl (d : Definition) : d.alike d = true := by
  rw [alike_iff]
  exact ⟨rfl, rfl, rfl⟩

theorem names_eq_of_alike {d e : Definition} (same : d.alike e = true) :
    d.init.names = e.init.names :=
  Term.names_eq_of_alike ((Term.alike_iff _ _).mpr ((alike_iff d e).mp same).2.2)

/-- A table of some definitions: one for each of their names, standing for all of that name. -/
structure Tabulates (known ds : List Definition) : Prop where
  nodup : (known.map name).Nodup
  subset : known ⊆ ds
  covers : ∀ d ∈ ds, ∃ e ∈ known, e.alike d = true

namespace Tabulates

variable {known ds : List Definition}

theorem eq_of_name (table : Tabulates known ds) {d e : Definition} (inD : d ∈ known)
    (inE : e ∈ known) (same : d.name = e.name) : d = e :=
  List.inj_on_of_nodup_map table.nodup inD inE same

theorem definitionOf?_eq_some_iff (table : Tabulates known ds) {n : String} {d : Definition} :
    Resolution.definitionOf? known n = some d ↔ d ∈ known ∧ d.name = n := by
  constructor
  · intro found
    exact ⟨List.mem_of_find?_eq_some found, by simpa using List.find?_some found⟩
  · rintro ⟨member, rfl⟩
    cases found : Resolution.definitionOf? known d.name with
    | none => simpa using List.find?_eq_none.mp found d member
    | some e =>
      have inE := List.mem_of_find?_eq_some found
      have same : e.name = d.name := by simpa using List.find?_some found
      rw [table.eq_of_name inE member same]

theorem refers_iff (table : Tabulates known ds) (a b : String) :
    Refers ds a b ↔ Refers known a b := by
  constructor
  · rintro ⟨d, member, rfl, refers⟩
    obtain ⟨e, inside, same⟩ := table.covers d member
    exact ⟨e, inside, ((alike_iff e d).mp same).1, by rwa [names_eq_of_alike same]⟩
  · rintro ⟨d, member, named, refers⟩
    exact ⟨d, table.subset member, named, refers⟩

theorem refers_eq (table : Tabulates known ds) : Refers ds = Refers known := by
  funext a b
  exact propext (table.refers_iff a b)

theorem defined_iff (table : Tabulates known ds) (n : String) :
    (∃ d ∈ ds, d.name = n) ↔ ∃ d ∈ known, d.name = n := by
  constructor
  · rintro ⟨d, member, rfl⟩
    obtain ⟨e, inside, same⟩ := table.covers d member
    exact ⟨e, inside, ((alike_iff e d).mp same).1⟩
  · rintro ⟨d, member, named⟩
    exact ⟨d, table.subset member, named⟩

theorem not_conflict (table : Tabulates known ds) (n : String) : ¬ Conflict ds n := by
  rintro ⟨d, inD, e, inE, rfl, named, apart⟩
  obtain ⟨d', inD', sameD⟩ := table.covers d inD
  obtain ⟨e', inE', sameE⟩ := table.covers e inE
  have one : d' = e' := by
    apply table.eq_of_name inD' inE'
    rw [((alike_iff d' d).mp sameD).1, ((alike_iff e' e).mp sameE).1, named]
  rw [← one] at sameE
  rw [alike_trans (alike_symm sameD) sameE] at apart
  cases apart

end Tabulates

/-- What adding a definition to a table comes to: it takes the place of the one of its name. -/
theorem addTo_eq_ok {d : Definition} {known known' : List Definition}
    (success : d.addTo known = .ok known') :
    (∀ e, e ∈ known' → e = d ∨ e ∈ known) ∧ d ∈ known' ∧
      (∀ e ∈ known, e ∈ known' ∨ e.alike d = true) ∧
      (known'.map name = known.map name ∨
        d.name ∉ known.map name ∧ known'.map name = known.map name ++ [d.name]) := by
  induction known generalizing known' with
  | nil =>
    cases success
    simp
  | cons e rest ih =>
    rw [addTo] at success
    by_cases named : e.name = d.name
    · rw [if_pos named] at success
      split at success
      · rename_i same
        cases success
        refine ⟨?_, by simp, ?_, .inl (by simp [named])⟩
        · intro f member
          rcases List.mem_cons.mp member with rfl | member
          · exact .inl rfl
          · exact .inr (by simp [member])
        · intro f member
          rcases List.mem_cons.mp member with rfl | member
          · exact .inr same
          · exact .inl (by simp [member])
      · cases success
    · rw [if_neg named] at success
      obtain ⟨rest', added, same⟩ := Outcome.bind_eq_ok_iff.mp success
      cases same
      obtain ⟨only, placed, kept, names⟩ := ih added
      refine ⟨?_, by simp [placed], ?_, ?_⟩
      · intro f member
        rcases List.mem_cons.mp member with rfl | member
        · exact .inr (by simp)
        · exact (only f member).imp_right (List.mem_cons_of_mem e)
      · intro f member
        rcases List.mem_cons.mp member with rfl | member
        · exact .inl (by simp)
        · exact (kept f member).imp_left (List.mem_cons_of_mem e)
      · rcases names with names | ⟨fresh, names⟩
        · exact .inl (by simp [names])
        · refine .inr ⟨?_, by simp [names]⟩
          simp only [List.map_cons, List.mem_cons, not_or]
          exact ⟨fun same => named same.symm, fresh⟩

theorem addTo_eq_error {d : Definition} {known : List Definition} {reason : Error}
    (failed : d.addTo known = .error reason) :
    reason = .duplicateVariable d.name ∧ ∃ e ∈ known, e.name = d.name ∧ e.alike d = false := by
  induction known with
  | nil => cases failed
  | cons e rest ih =>
    rw [addTo] at failed
    by_cases named : e.name = d.name
    · rw [if_pos named] at failed
      split at failed
      · cases failed
      · rename_i apart
        cases failed
        exact ⟨rfl, e, by simp, named, by simpa using apart⟩
    · rw [if_neg named] at failed
      rcases Outcome.bind_eq_error_iff.mp failed with failed | ⟨_, _, failed⟩
      · obtain ⟨same, f, member, found⟩ := ih failed
        exact ⟨same, f, by simp [member], found⟩
      · cases failed

theorem Tabulates.addTo {d : Definition} {known known' ds : List Definition}
    (table : Tabulates known ds) (success : d.addTo known = .ok known') :
    Tabulates known' (ds ++ [d]) := by
  obtain ⟨only, placed, kept, names⟩ := addTo_eq_ok success
  refine ⟨?_, ?_, ?_⟩
  · rcases names with names | ⟨fresh, names⟩
    · rw [names]
      exact table.nodup
    · rw [names, List.nodup_append]
      refine ⟨table.nodup, by simp, ?_⟩
      rintro n member n' last rfl
      exact fresh (List.mem_singleton.mp last ▸ member)
  · intro e member
    rcases only e member with rfl | member
    · simp
    · simp [table.subset member]
  · intro f member
    rcases List.mem_append.mp member with member | last
    · obtain ⟨e, inside, same⟩ := table.covers f member
      rcases kept e inside with stays | replaced
      · exact ⟨e, stays, same⟩
      · exact ⟨d, placed, alike_trans (alike_symm replaced) same⟩
    · obtain rfl := List.mem_singleton.mp last
      exact ⟨f, placed, alike_refl f⟩

/-- The definitions among some statements. -/
def among (statements : List Term) : List Definition := statements.filterMap ofTerm?

theorem mem_among {statements : List Term} {d : Definition} :
    d ∈ among statements ↔ d.toTerm ∈ statements := by
  simp only [among, List.mem_filterMap]
  constructor
  · rintro ⟨t, member, read⟩
    cases t <;> simp only [ofTerm?, reduceCtorEq, Option.some.injEq] at read
    subst read
    exact member
  · intro member
    exact ⟨d.toTerm, member, rfl⟩

private theorem foldlM_addTo (known done ds : List Definition) (table : Tabulates known done) :
    (∃ known', ds.foldlM (fun known d => d.addTo known) known = .ok known' ∧
      Tabulates known' (done ++ ds)) ∨
    ∃ n, ds.foldlM (fun known d => d.addTo known) known = .error (.duplicateVariable n) ∧
      Conflict (done ++ ds) n := by
  induction ds generalizing known done with
  | nil => exact .inl ⟨known, rfl, by simpa using table⟩
  | cons d ds ih =>
    rw [List.foldlM_cons]
    cases added : d.addTo known with
    | ok known' => simpa using ih known' (done ++ [d]) (table.addTo added)
    | error reason =>
      obtain ⟨rfl, e, member, named, apart⟩ := addTo_eq_error added
      exact .inr ⟨d.name, rfl, e, by simp [table.subset member], d, by simp, named, rfl, apart⟩

/-- There is a table, or a name with two definitions that do not count as one. -/
theorem table_cases (statements : List Term) :
    (∃ known, table statements = .ok known ∧ Tabulates known (among statements)) ∨
    ∃ n, table statements = .error (.duplicateVariable n) ∧ Conflict (among statements) n :=
  foldlM_addTo [] [] (among statements) ⟨by simp, by simp, by simp⟩

end ShaderFlow.Definition
