import ShaderFlow.Proofs.Program.Generation
import ShaderFlow.Proofs.Term.Size

set_option autoImplicit false

namespace ShaderFlow

open Definition Term

namespace Lowering

/-- Every run of `f` on `t` leaves a term that, with the definitions made on the way, has less than
twice the size of `t`. -/
def Doubles (f : Term → LowerM Term) (t : Term) : Prop :=
  ∀ s u s', (f t).run s = .ok (u, s') → sizeAll s'.made + u.size < sizeAll s.made + 2 * t.size

theorem sizeAll_of_mapM {f : Term → LowerM Term} {ts : List Term} (each : ∀ t ∈ ts, Doubles f t)
    {s s' : Lowering} {us : List Term} (ran : (ts.mapM f).run s = .ok (us, s')) :
    sizeAll s'.made + sizeAll us ≤ sizeAll s.made + 2 * sizeAll ts := by
  induction ts generalizing s us with
  | nil =>
    cases ran
    exact Nat.le_refl _
  | cons t ts ih =>
    rw [List.mapM_cons, run_bind_eq_ok_iff] at ran
    obtain ⟨u, s₁, here, ran⟩ := ran
    obtain ⟨us, s₂, there, same⟩ := run_bind_eq_ok_iff.mp ran
    cases same
    have first := each t (by simp) s u s₁ here
    have rest := ih (fun t member => each t (by simp [member])) there
    simp only [sizeAll]
    omega

theorem doubles_part {t : Term} (inner : Doubles Term.lower t) : Doubles lowerPart t := by
  intro s u s' ran
  cases t with
  | text c =>
    cases ran
    simp [Term.size]
  | _ => exact inner s u s' ran

theorem doubles_lower (t : Term) : Doubles Term.lower t := by
  induction t using Term.induction with
  | number x =>
    intro s u s' ran
    cases ran
    simp [Term.size]
  | ref name =>
    intro s u s' ran
    cases ran
    simp [Term.size]
  | vec type args ih =>
    intro s u s' ran
    rw [Term.lower, lowerAll_eq_mapM] at ran
    obtain ⟨us, s₁, ran, same⟩ := run_bind_eq_ok_iff.mp ran
    cases same
    have inner := sizeAll_of_mapM ih ran
    simp only [Term.size]
    omega
  | call func args ih =>
    intro s u s' ran
    rw [Term.lower, lowerAll_eq_mapM] at ran
    obtain ⟨us, s₁, ran, same⟩ := run_bind_eq_ok_iff.mp ran
    cases same
    have inner := sizeAll_of_mapM ih ran
    simp only [Term.size]
    omega
  | raw parts ih =>
    intro s u s' ran
    rw [Term.lower, lowerParts_eq_mapM] at ran
    obtain ⟨us, s₁, ran, same⟩ := run_bind_eq_ok_iff.mp ran
    cases same
    have inner := sizeAll_of_mapM (fun t member => doubles_part (ih t member)) ran
    simp only [Term.size]
    omega
  | swizzle base components ih =>
    intro s u s' ran
    rw [Term.lower] at ran
    obtain ⟨lowered, s₁, ran, same⟩ := run_bind_eq_ok_iff.mp ran
    cases same
    have inner := ih s lowered _ ran
    simp only [Term.size]
    omega
  | shared key type init stem ih =>
    intro s u s' ran
    cases known : s.entries.lookup key with
    | some name =>
      rw [run_lower_shared_of_found type init stem known] at ran
      cases ran
      simp only [Term.size]
      omega
    | none =>
      obtain ⟨lowered, s₁, within, rfl, rfl⟩ :=
        (run_lower_shared_of_new type init stem known).mp ran
      have inner := ih _ lowered s₁ within
      -- The reference and the head of the definition are paid for by the shared variable itself.
      simp only [sizeAll_append, sizeAll, Term.size] at inner ⊢
      omega
  | absent | text | define | commit =>
    intro s u s' ran
    cases ran

theorem doubles_statement (t : Term) : Doubles Term.lowerStatement t := by
  intro s u s' ran
  cases t with
  | define name type init =>
    obtain ⟨lowered, s₁, ran, same⟩ := run_bind_eq_ok_iff.mp ran
    cases same
    have inner := doubles_lower init s lowered _ ran
    simp only [Term.size]
    omega
  | commit value =>
    obtain ⟨lowered, s₁, ran, same⟩ := run_bind_eq_ok_iff.mp ran
    cases same
    have inner := doubles_lower value s lowered _ ran
    simp only [Term.size]
    omega
  | _ => cases ran

theorem sizeAll_lowerProgram_le {statements lowered : List Term} {hits : Nat}
    (ran : lowerProgram statements = .ok (lowered, hits)) :
    sizeAll lowered ≤ 2 * sizeAll statements := by
  obtain ⟨⟨rest, s⟩, lowers, same⟩ := Outcome.bind_eq_ok_iff.mp ran
  cases same
  rw [lowerStatements_eq_mapM] at lowers
  have inner := sizeAll_of_mapM (fun t _ => doubles_statement t) lowers
  rw [sizeAll_append]
  simpa [sizeAll] using inner

end Lowering

theorem Definition.toTerm_injective : Function.Injective toTerm := by
  intro d e same
  cases d
  cases e
  simpa [toTerm] using same

namespace Program

/-- The statements of a program, in the order in which they are written. -/
def statements (p : Program) : List Term := p.definitions.map toTerm ++ [p.commit]

theorem Built.subset_statements {lowered : List Term} {p : Program} (built : Built lowered p) :
    p.statements ⊆ lowered := by
  intro t member
  rcases List.mem_append.mp member with member | last
  · obtain ⟨d, inside, rfl⟩ := List.mem_map.mp member
    exact mem_among.mp (built.resolves.subset inside)
  · rw [List.mem_singleton.mp last]
    exact mem_of_only built.only

theorem Built.nodup_statements {lowered : List Term} {p : Program} (built : Built lowered p) :
    p.statements.Nodup := by
  have definitions : (p.definitions.map toTerm).Nodup :=
    (List.Nodup.of_map _ built.resolves.nodup).map toTerm_injective
  have commits : isCommit p.commit = true := by
    have member : p.commit ∈ lowered.filter isCommit := by simp [built.only]
    exact (List.mem_filter.mp member).2
  refine definitions.append (List.nodup_singleton _) ?_
  intro t member last
  obtain ⟨d, _, rfl⟩ := List.mem_map.mp member
  rw [← List.mem_singleton.mp last] at commits
  cases commits

/-- A program is at most twice as large as the statements it was made from. -/
theorem sizeAll_statements_le {statements : List Term} {p : Program}
    (made : ofStatements statements = .ok p) : sizeAll p.statements ≤ 2 * sizeAll statements := by
  obtain ⟨lowered, ran, built⟩ := built_of_ofStatements made
  calc sizeAll p.statements
      ≤ sizeAll lowered := sizeAll_le_of_subset built.nodup_statements built.subset_statements
    _ ≤ 2 * sizeAll statements := Lowering.sizeAll_lowerProgram_le ran

end Program

end ShaderFlow
