import ShaderFlow.Program.Basic
import ShaderFlow.Proofs.Program.Lowering
import ShaderFlow.Proofs.Program.Search

set_option autoImplicit false

namespace ShaderFlow

open Definition

namespace Term

theorem emitAll_eq_mapM (target : Target) (ts : List Term) :
    emitAll target ts = ts.mapM (emit target) := by
  induction ts with
  | nil => rfl
  | cons t ts ih => rw [emitAll, List.mapM_cons, ih]

/-- The text of a part of raw text. -/
def emitPart (target : Target) : Term → Except Error String
  | text s => .ok s
  | t => t.emit target

theorem emitParts_eq_mapM (target : Target) (ts : List Term) :
    emitParts target ts = ts.mapM (emitPart target) := by
  induction ts with
  | nil => rfl
  | cons t ts ih =>
    rw [List.mapM_cons, ← ih]
    cases t <;> rfl

theorem IsFinite.of_mem {args : List Term} {f : List Term → Term} (finite : (f args).IsFinite)
    (leaves : (f args).literals = args.flatMap literals) {t : Term} (member : t ∈ args) :
    t.IsFinite := by
  intro x inside
  apply finite
  rw [leaves]
  exact List.mem_flatMap.mpr ⟨t, member, inside⟩

/-- Every lowered expression over finite numbers has a text. -/
theorem exists_emit (target : Target) (t : Term) (shape : t.isExpression = true)
    (unshared : t.outerShared = []) (finite : t.IsFinite) : ∃ s, t.emit target = .ok s := by
  induction t using Term.induction with
  | number x =>
    have here : x.isFinite = true := finite x (by simp)
    exact ⟨x.text, by rw [emit, Binary64.literal, if_pos here]⟩
  | ref name => exact ⟨name, by rw [emit]⟩
  | vec type args ih =>
    simp only [isExpression, areExpressions_eq, List.all_eq_true] at shape
    simp only [gather, gatherAll_eq, List.flatMap_eq_nil_iff] at unshared
    obtain ⟨ss, ran⟩ := Outcome.exists_mapM_eq_ok fun t member =>
      ih t member (shape t member) (unshared t member) (finite.of_mem (by simp) member)
    exact ⟨_, by rw [emit, emitAll_eq_mapM, ran]; rfl⟩
  | call func args ih =>
    simp only [isExpression, areExpressions_eq, List.all_eq_true] at shape
    simp only [gather, gatherAll_eq, List.flatMap_eq_nil_iff] at unshared
    obtain ⟨ss, ran⟩ := Outcome.exists_mapM_eq_ok fun t member =>
      ih t member (shape t member) (unshared t member)
        (finite.of_mem (f := call func) (by simp) member)
    exact ⟨_, by rw [emit, emitAll_eq_mapM, ran]; rfl⟩
  | raw parts ih =>
    simp only [isExpression, areParts_eq, List.all_eq_true, Bool.or_eq_true] at shape
    simp only [gather, gatherAll_eq, List.flatMap_eq_nil_iff] at unshared
    have each : ∀ t ∈ parts, ∃ s, t.emitPart target = .ok s := by
      intro t member
      cases t with
      | text s => exact ⟨s, rfl⟩
      | _ =>
        exact ih _ member ((shape _ member).resolve_left (by simp [isText])) (unshared _ member)
          (finite.of_mem (by simp) member)
    obtain ⟨ss, ran⟩ := Outcome.exists_mapM_eq_ok each
    exact ⟨_, by rw [emit, emitParts_eq_mapM, ran]; rfl⟩
  | swizzle base components ih =>
    obtain ⟨s, ran⟩ := ih (by simpa using shape) (by simpa using unshared)
      (fun x member => finite x (by simpa using member))
    exact ⟨_, by rw [emit, ran]; rfl⟩
  | shared key type init stem => simp at unshared
  | absent | text | define | commit => simp at shape

/-- Without shared variables the text of a term does not fail for want of lowering. -/
theorem emit_ne_unlowered (target : Target) (t : Term) (unshared : t.outerShared = []) (key : Key) :
    t.emit target ≠ .error (.unlowered key) := by
  intro failed
  induction t using Term.induction with
  | number x =>
    rw [emit, Binary64.literal] at failed
    split at failed <;> cases failed
  | vec type args ih | call func args ih =>
    simp only [gather, gatherAll_eq, List.flatMap_eq_nil_iff] at unshared
    rw [emit, emitAll_eq_mapM] at failed
    rcases Outcome.bind_eq_error_iff.mp failed with failed | ⟨_, -, done⟩
    · obtain ⟨t, member, fails⟩ := Outcome.exists_of_mapM_eq_error failed
      exact ih t member (unshared t member) fails
    · cases done
  | raw parts ih =>
    simp only [gather, gatherAll_eq, List.flatMap_eq_nil_iff] at unshared
    rw [emit, emitParts_eq_mapM] at failed
    rcases Outcome.bind_eq_error_iff.mp failed with failed | ⟨_, -, done⟩
    · obtain ⟨t, member, fails⟩ := Outcome.exists_of_mapM_eq_error failed
      cases t with
      | text s => cases fails
      | _ => exact ih _ member (unshared _ member) fails
    · cases done
  | swizzle base components ih =>
    rw [emit] at failed
    rcases Outcome.bind_eq_error_iff.mp failed with failed | ⟨_, -, done⟩
    · exact ih (by simpa using unshared) failed
    · cases done
  | shared => simp at unshared
  | absent | text | ref | define | commit => cases failed

theorem emitStatement_ne_unlowered (target : Target) (level : Nat) (t : Term)
    (unshared : t.outerShared = []) (key : Key) :
    t.emitStatement target level ≠ .error (.unlowered key) := by
  intro failed
  cases t with
  | define name type init =>
    rcases Outcome.bind_eq_error_iff.mp failed with failed | ⟨_, -, done⟩
    · exact init.emit_ne_unlowered target (by simpa using unshared) key failed
    · cases done
  | commit value =>
    rcases Outcome.bind_eq_error_iff.mp failed with failed | ⟨_, -, done⟩
    · exact value.emit_ne_unlowered target (by simpa using unshared) key failed
    · cases done
  | _ => cases failed

end Term

/-- A statement that can be written out: well-formed, lowered, over finite numbers. -/
structure Emittable (t : Term) : Prop where
  shape : t.isStatement = true
  unshared : t.outerShared = []
  finite : t.IsFinite

theorem Emittable.exists_emitStatement {t : Term} (emittable : Emittable t) (target : Target)
    (level : Nat) : ∃ line, t.emitStatement target level = .ok line := by
  obtain ⟨shape, unshared, finite⟩ := emittable
  cases t with
  | define name type init =>
    obtain ⟨s, ran⟩ := init.exists_emit target shape (by simpa using unshared)
      (fun x member => finite x (by simpa using member))
    exact ⟨_, by rw [Term.emitStatement, ran]; rfl⟩
  | commit value =>
    obtain ⟨s, ran⟩ := value.exists_emit target shape (by simpa using unshared)
      (fun x member => finite x (by simpa using member))
    exact ⟨_, by rw [Term.emitStatement, ran]; rfl⟩
  | _ => cases shape

/-- Statements as they are given to generation: well-formed, over finite numbers. -/
structure WellFormed (statements : List Term) : Prop where
  shape : ∀ t ∈ statements, t.isStatement = true
  finite : ∀ t ∈ statements, t.IsFinite

/-- Lowering leaves statements that can be written out. -/
theorem WellFormed.emittable {statements lowered : List Term} {hits : Nat}
    (wellFormed : WellFormed statements) (ran : lowerProgram statements = .ok (lowered, hits)) :
    ∀ t ∈ lowered, Emittable t := by
  obtain ⟨issues, rest, lowers⟩ := Lowering.lowered_of_lowerProgram ran
  intro t member
  refine ⟨lowers.isStatement wellFormed.shape t member, lowers.unshared false t member, ?_⟩
  intro x held
  rcases lowers.mem_cases member with ⟨i, inside, rfl, related⟩ | ⟨s, inside, related⟩
  · obtain ⟨s, given, found⟩ := List.mem_flatMap.mp (lowers.origin i inside)
    have literal : x ∈ i.init.literals :=
      related.literals_subset (by simpa [Lowering.Issue.definition] using held)
    exact wellFormed.finite s given x (Term.gather_init_subset found literal)
  · exact wellFormed.finite s inside x (related.literals_subset held)

/-- What a lowered statement list needs to compile. -/
structure Compiles (lowered : List Term) : Prop where
  oneCommit : (lowered.filter Program.isCommit).length = 1
  consistent : ∀ n, ¬ Conflict (among lowered) n
  defined : ∀ commit ∈ lowered.filter Program.isCommit, ∀ n,
    Reached (among lowered) commit.names n → ∃ d ∈ among lowered, d.name = n
  acyclic : ∀ commit ∈ lowered.filter Program.isCommit, ∀ n,
    Reached (among lowered) commit.names n →
      ¬ Relation.TransGen (Refers (among lowered)) n n

/-- What becomes of a lowered statement list, the first that applies: a wrong count of commit
statements, a name with two definitions that do not count as one, a reached name without a
definition or on a cycle, or a result. -/
inductive Verdict {α : Type} (lowered : List Term) : Except Error α → Prop
  | commitCount (several : (lowered.filter Program.isCommit).length ≠ 1) :
      Verdict lowered (.error (.commitCount (lowered.filter Program.isCommit).length))
  | conflict {n : String} (one : (lowered.filter Program.isCommit).length = 1)
      (apart : Conflict (among lowered) n) :
      Verdict lowered (.error (.duplicateVariable n))
  | undefined {n : String} {commit : Term} (only : lowered.filter Program.isCommit = [commit])
      (consistent : ∀ n, ¬ Conflict (among lowered) n)
      (reached : Reached (among lowered) commit.names n)
      (missing : ∀ d ∈ among lowered, d.name ≠ n) :
      Verdict lowered (.error (.undefinedVariable n))
  | cyclic {n : String} {commit : Term} (only : lowered.filter Program.isCommit = [commit])
      (consistent : ∀ n, ¬ Conflict (among lowered) n)
      (reached : Reached (among lowered) commit.names n)
      (cycle : Relation.TransGen (Refers (among lowered)) n n) :
      Verdict lowered (.error (.selfDependent n))
  | result (compiles : Compiles lowered) (a : α) : Verdict lowered (.ok a)

/-- The reasons to fail are all reasons not to compile. -/
theorem Verdict.isOk_iff {α : Type} {lowered : List Term} {outcome : Except Error α}
    (verdict : Verdict lowered outcome) : (∃ a, outcome = .ok a) ↔ Compiles lowered := by
  cases verdict with
  | commitCount several => exact ⟨by simp, fun compiles => absurd compiles.oneCommit several⟩
  | conflict one apart => exact ⟨by simp, fun compiles => absurd apart (compiles.consistent _)⟩
  | undefined only consistent reached missing =>
    refine ⟨by simp, fun compiles => ?_⟩
    obtain ⟨d, member, named⟩ := compiles.defined _ (by simp [only]) _ reached
    exact absurd named (missing d member)
  | cyclic only consistent reached cycle =>
    exact ⟨by simp, fun compiles => absurd cycle (compiles.acyclic _ (by simp [only]) _ reached)⟩
  | result compiles a => exact ⟨fun _ => compiles, fun _ => ⟨a, rfl⟩⟩

namespace Program

theorem mem_of_only {statements : List Term} {commit : Term}
    (only : statements.filter isCommit = [commit]) : commit ∈ statements := by
  have member : commit ∈ statements.filter isCommit := by simp [only]
  exact (List.mem_filter.mp member).1

theorem commitOf_eq_ok_iff {statements : List Term} {commit : Term} :
    commitOf statements = .ok commit ↔ statements.filter isCommit = [commit] := by
  unfold commitOf
  split
  · rename_i found only
    simp [only]
  · rename_i other
    simp only [reduceCtorEq, false_iff]
    exact fun only => other commit only

theorem commitOf_eq_error {statements : List Term}
    (several : (statements.filter isCommit).length ≠ 1) :
    commitOf statements = .error (.commitCount (statements.filter isCommit).length) := by
  unfold commitOf
  split
  · rename_i found only
    simp [only] at several
  · rfl

end Program

theorem Definition.Tabulates.reached_iff {known ds : List Definition} (table : Tabulates known ds)
    {roots : List String} {n : String} : Reached ds roots n ↔ Reached known roots n := by
  rw [Reached, Reached, table.refers_eq]

/-- A resolution over a table is one over all the definitions it stands for. -/
theorem Definition.Tabulates.resolves {known ds all : List Definition} (table : Tabulates known all)
    {roots : List String} (result : Resolves known roots ds) : Resolves all roots ds :=
  ⟨result.nodup, fun _ member => table.subset (result.subset member), result.inOrder,
    fun n => (result.exact n).trans table.reached_iff.symm⟩

/-- How the parts of a program come from a lowered statement list. -/
structure Program.Built (lowered : List Term) (p : Program) : Prop where
  only : lowered.filter isCommit = [p.commit]
  resolves : Resolves (among lowered) p.commit.names p.definitions

namespace Program

theorem built_of_ofStatements {statements : List Term} {p : Program}
    (success : ofStatements statements = .ok p) :
    ∃ lowered, lowerProgram statements = .ok (lowered, p.hits) ∧ Built lowered p := by
  obtain ⟨⟨lowered, hits⟩, ran, success⟩ := Outcome.bind_eq_ok_iff.mp success
  obtain ⟨commit, chosen, success⟩ := Outcome.bind_eq_ok_iff.mp success
  obtain ⟨known, tabulated, success⟩ := Outcome.bind_eq_ok_iff.mp success
  obtain ⟨ds, resolved, same⟩ := Outcome.bind_eq_ok_iff.mp success
  cases same
  obtain ⟨names, read, searched⟩ := Outcome.bind_eq_ok_iff.mp resolved
  obtain rfl := Term.names_of_refs read
  refine ⟨lowered, ran, commitOf_eq_ok_iff.mp chosen, ?_⟩
  rcases table_cases lowered with ⟨known', made, table⟩ | ⟨n, failed, -⟩
  · obtain rfl : known = known' := by simpa [tabulated] using made
    rcases Resolution.search_cases table (.start known commit.names) with
      ⟨ds', found, result⟩ | ⟨reason, failed, -⟩
    · obtain rfl : ds = ds' := by simpa [searched] using found
      exact table.resolves result
    · simp [searched] at failed
  · simp [tabulated] at failed

/-- A program is built unless the statements do not compile. -/
theorem verdict_ofStatements {statements lowered : List Term} {hits : Nat}
    (ran : lowerProgram statements = .ok (lowered, hits))
    (shape : ∀ t ∈ lowered, t.isStatement = true) :
    Verdict lowered (ofStatements statements) := by
  rw [ofStatements, ran, Outcome.ok_bind]
  dsimp only
  by_cases one : (lowered.filter isCommit).length = 1
  · obtain ⟨commit, only⟩ := List.length_eq_one_iff.mp one
    have inside : commit ∈ lowered := mem_of_only only
    rw [commitOf_eq_ok_iff.mpr only, Outcome.ok_bind]
    rcases table_cases lowered with ⟨known, made, table⟩ | ⟨n, failed, apart⟩
    · have read := commit.refs_eq_names (.inr (shape commit inside))
      rw [made, Outcome.ok_bind, Resolution.resolve, read, Outcome.ok_bind]
      rcases Resolution.search_cases table (.start known commit.names) with
        ⟨ds, found, result⟩ | ⟨reason, failed, fault⟩
      · rw [found]
        refine .result ⟨one, table.not_conflict, ?_, ?_⟩ _
        · intro other member n reached
          obtain rfl : other = commit := by simpa [only] using member
          exact (table.defined_iff n).mpr (result.defined (table.reached_iff.mp reached))
        · intro other member n reached
          obtain rfl : other = commit := by simpa [only] using member
          rw [table.refers_eq]
          exact result.not_cyclic table (table.reached_iff.mp reached)
      · rw [failed]
        cases fault with
        | undefined reached missing =>
          refine .undefined only table.not_conflict (table.reached_iff.mpr reached) ?_
          intro d member named
          obtain ⟨e, inKnown, same⟩ := (table.defined_iff _).mp ⟨d, member, named⟩
          exact missing e inKnown same
        | cyclic reached cycle =>
          rw [← table.refers_eq] at cycle
          exact .cyclic only table.not_conflict (table.reached_iff.mpr reached) cycle
        | @misshapen d _ member unread =>
          have shape := shape _ (mem_among.mp (table.subset member))
          rw [d.init.refs_eq_names (.inl shape)] at unread
          cases unread
    · rw [failed]
      exact .conflict one apart
  · rw [commitOf_eq_error one]
    exact .commitCount one

theorem body_eq_mapM (target : Target) (p : Program) :
    p.body target =
      (p.definitions.map toTerm ++ [p.commit]).mapM (Term.emitStatement target 1) := by
  rw [body, List.mapM_append, List.mapM_map]
  simp only [List.mapM_cons, List.mapM_nil, bind_assoc, pure_bind]
  rfl

theorem Built.subset {lowered : List Term} {p : Program} (built : Built lowered p) :
    p.definitions.map toTerm ++ [p.commit] ⊆ lowered := by
  intro t member
  rcases List.mem_append.mp member with member | last
  · obtain ⟨d, inside, rfl⟩ := List.mem_map.mp member
    exact mem_among.mp (built.resolves.subset inside)
  · rw [List.mem_singleton.mp last]
    exact mem_of_only built.only

theorem Built.exists_source {lowered : List Term} {p : Program} (built : Built lowered p)
    (emittable : ∀ t ∈ lowered, Emittable t) (target : Target) :
    ∃ text, p.source target = .ok text := by
  obtain ⟨lines, ran⟩ := Outcome.exists_mapM_eq_ok fun t member =>
    (emittable t (built.subset member)).exists_emitStatement target 1
  exact ⟨_, by rw [source, body_eq_mapM, ran]; rfl⟩

theorem Built.source_ne_unlowered {lowered : List Term} {p : Program} (built : Built lowered p)
    (unshared : ∀ t ∈ lowered, t.outerShared = []) (target : Target) (key : Key) :
    p.source target ≠ .error (.unlowered key) := by
  intro failed
  rw [source, body_eq_mapM] at failed
  rcases Outcome.bind_eq_error_iff.mp failed with failed | ⟨_, -, done⟩
  · obtain ⟨t, member, fails⟩ := Outcome.exists_of_mapM_eq_error failed
    exact t.emitStatement_ne_unlowered target 1 (unshared t (built.subset member)) key fails
  · cases done

end Program

namespace Fragment

theorem outcome_generate (target : Target) (f : Fragment) :
    (f.generate target).outcome = Program.ofStatements f.statements >>= Program.source target := by
  simp only [generate, Logged.outcome_bind]
  rfl

/-- A program over well-formed statements always has a source. -/
theorem exists_generate {f : Fragment} (wellFormed : WellFormed f.statements) (target : Target)
    {p : Program} (made : Program.ofStatements f.statements = .ok p) :
    ∃ text, (f.generate target).outcome = .ok text := by
  obtain ⟨lowered, ran, built⟩ := Program.built_of_ofStatements made
  obtain ⟨text, written⟩ := built.exists_source (wellFormed.emittable ran) target
  exact ⟨text, by rw [outcome_generate, made, Outcome.ok_bind, written]⟩

theorem verdict_generate {f : Fragment} (wellFormed : WellFormed f.statements) (target : Target)
    {lowered : List Term} {hits : Nat} (ran : lowerProgram f.statements = .ok (lowered, hits)) :
    Verdict lowered (f.generate target).outcome := by
  have verdict := Program.verdict_ofStatements ran
    fun t member => (wellFormed.emittable ran t member).shape
  cases outcome : Program.ofStatements f.statements with
  | ok p =>
    obtain ⟨text, written⟩ := exists_generate wellFormed target outcome
    rw [written]
    exact .result (verdict.isOk_iff.mp ⟨p, outcome⟩) text
  | error reason =>
    rw [outcome] at verdict
    rw [outcome_generate, outcome, Outcome.error_bind]
    cases verdict with
    | commitCount several => exact .commitCount several
    | conflict one apart => exact .conflict one apart
    | undefined only consistent reached missing => exact .undefined only consistent reached missing
    | cyclic only consistent reached cycle => exact .cyclic only consistent reached cycle

/-- Generation lowers everything that it writes out. -/
theorem generate_ne_unlowered {f : Fragment} (shape : ∀ t ∈ f.statements, t.isStatement = true)
    (target : Target) (key : Key) : (f.generate target).outcome ≠ .error (.unlowered key) := by
  intro failed
  rw [outcome_generate] at failed
  rcases Outcome.bind_eq_error_iff.mp failed with failed | ⟨p, made, failed⟩
  · obtain ⟨lowered, hits, ran⟩ := Lowering.exists_lowerProgram shape
    obtain ⟨issues, rest, lowers⟩ := Lowering.lowered_of_lowerProgram ran
    have verdict := Program.verdict_ofStatements ran (lowers.isStatement shape)
    rw [failed] at verdict
    cases verdict
  · obtain ⟨lowered, ran, built⟩ := Program.built_of_ofStatements made
    obtain ⟨issues, rest, lowers⟩ := Lowering.lowered_of_lowerProgram ran
    exact built.source_ne_unlowered (lowers.unshared false) target key failed

end Fragment

end ShaderFlow
