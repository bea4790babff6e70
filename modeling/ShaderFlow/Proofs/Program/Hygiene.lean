import ShaderFlow.Proofs.Program.Sharing

set_option autoImplicit false

/-
Definitions that are made for shared variables stand in one table with the given ones. A name that
the commit statement reaches, as the statements are written, is defined by one of them, or it meets
a definition that was made: then it is captured, and nobody hears that it was undefined.
-/

namespace ShaderFlow

open Definition

namespace Term

/-- A term refers to a name by itself, or through the initializer of a shared variable that counts.
-/
inductive Mentions (counts : Term → Prop) : Term → String → Prop
  | own {t : Term} {n : String} (member : n ∈ t.names) : Mentions counts t n
  | within {t : Term} {key : Key} {type : String} {init : Term} {stem n : String}
      (member : .shared key type init stem ∈ t.outerShared)
      (counted : counts (.shared key type init stem)) (inner : Mentions counts init n) :
      Mentions counts t n

theorem Mentions.mono {counts counts' : Term → Prop} {t : Term} {n : String}
    (mentions : Mentions counts t n) (more : ∀ u ∈ t.allShared, counts u → counts' u) :
    Mentions counts' t n := by
  induction mentions with
  | own member => exact .own member
  | within member counted _ ih =>
    have inside := gather_subset_deep sharedLeaf _ member
    exact .within member (more _ inside counted)
      (ih fun u held => more u (gather_init_subset inside held))

end Term

namespace Lowering

/-- A shared variable that is the only one of its key. Of others the initializer may be dropped. -/
def Settled (statements : List Term) (u : Term) : Prop :=
  ∀ v ∈ statements.flatMap Term.allShared, v.key? = u.key? → v = u

theorem Coherent.settled {statements : List Term} (coherent : Coherent statements) {u : Term}
    (member : u ∈ statements.flatMap Term.allShared) : Settled statements u :=
  fun v inside same => coherent v inside u member same

/-- The names that the commit statement leads to by the references in some statements, before
anything is lowered. -/
inductive Reaches (counts : Term → Prop) (statements : List Term) : String → Prop
  | commit {value : Term} {n : String} (given : .commit value ∈ statements)
      (mentions : value.Mentions counts n) : Reaches counts statements n
  | define {m type : String} {init : Term} {n : String} (reached : Reaches counts statements m)
      (given : .define m type init ∈ statements) (mentions : init.Mentions counts n) :
      Reaches counts statements n

theorem Reaches.mono {counts counts' : Term → Prop} {statements : List Term} {n : String}
    (reached : Reaches counts statements n)
    (more : ∀ u ∈ statements.flatMap Term.allShared, counts u → counts' u) :
    Reaches counts' statements n := by
  have each : ∀ t ∈ statements, ∀ u ∈ t.allShared, counts u → counts' u := fun t given u inside =>
    more u (List.mem_flatMap.mpr ⟨t, given, inside⟩)
  induction reached with
  | commit given mentions =>
    exact .commit given (mentions.mono fun u inside => each _ given u (by simpa using inside))
  | define _ given mentions ih =>
    exact .define ih given (mentions.mono fun u inside => each _ given u (by simpa using inside))

namespace Lowered

variable {statements lowered rest : List Term} {issues : List Issue}

/-- Lowering a term leads to all that it mentions: a variable that is the only one of its key has a
definition made from it. -/
theorem leads_of_mentions (lowers : Lowered statements lowered issues rest) {t : Term} {n : String}
    (mentions : t.Mentions (Settled statements) n) {u : Term}
    (related : Term.Replaces (issues.map Issue.entry).reverse t u) :
    Reached (among lowered) u.names n := by
  induction mentions generalizing u with
  | own member =>
    obtain ⟨leaf, inside, same⟩ := related.exists_leaf (Term.mem_names_iff.mp member)
    cases same
    exact .root (Term.mem_names_iff.mpr inside)
  | @within t key type init stem n member settled _ ih =>
    obtain ⟨leaf, inside, same⟩ := related.exists_leaf (Term.mem_outerShared_iff.mp member)
    cases same with
    | shared _ _ _ _ name listed =>
      obtain ⟨i, issued, entry⟩ := List.mem_map.mp (List.mem_reverse.mp listed)
      cases entry
      have origin : i.origin = .shared i.key type init stem :=
        settled _ (lowers.origin i issued) rfl
      obtain ⟨-, -, rfl, -⟩ := Term.shared.inj origin
      obtain ⟨m, refers, path⟩ := ih (lowers.replaces issued)
      have made : i.made ∈ among lowered := mem_among.mpr (by
        rw [lowers.split]
        exact List.mem_append_left _ (List.mem_map.mpr ⟨i, issued, rfl⟩))
      have first : Refers (among lowered) i.name m := ⟨i.made, made, rfl, refers⟩
      exact ⟨i.name, Term.mem_names_iff.mpr inside, .head first path⟩

/-- A given statement has its lowered form among the lowered ones. -/
theorem exists_rest (lowers : Lowered statements lowered issues rest) {t : Term}
    (given : t ∈ statements) :
    ∃ u ∈ lowered, Term.Replaces (issues.map Issue.entry).reverse t u := by
  obtain ⟨u, inside, related⟩ := exists_of_forall₂ lowers.replaced.flip given
  exact ⟨u, by rw [lowers.split]; exact List.mem_append_right _ inside, related⟩

/-- What the commit statement reaches as it is given, it reaches when it is lowered. -/
theorem reached_of_reaches (lowers : Lowered statements lowered issues rest) {commit : Term}
    (only : lowered.filter Program.isCommit = [commit]) {n : String}
    (reaches : Reaches (Settled statements) statements n) :
    Reached (among lowered) commit.names n := by
  induction reaches with
  | commit given mentions =>
    obtain ⟨u, inside, related⟩ := lowers.exists_rest given
    cases related with
    | commit inner =>
      have chosen : _ ∈ lowered.filter Program.isCommit := List.mem_filter.mpr ⟨inside, rfl⟩
      rw [only, List.mem_singleton] at chosen
      obtain rfl := chosen
      simpa using lowers.leads_of_mentions mentions inner
  | @define m type init n _ given mentions ih =>
    obtain ⟨u, inside, related⟩ := lowers.exists_rest given
    cases related with
    | @define _ _ _ init' inner =>
      obtain ⟨root, member, path⟩ := ih
      obtain ⟨k, refers, onward⟩ := lowers.leads_of_mentions mentions inner
      have step : Refers (among lowered) m k :=
        ⟨⟨m, type, init'⟩, mem_among.mpr inside, rfl, refers⟩
      exact ⟨root, member, (path.tail step).trans onward⟩

/-- The given statements and their lowered forms define the same names. -/
theorem map_name_rest (lowers : Lowered statements lowered issues rest) :
    (among rest).map name = (among statements).map name := by
  have replaced := lowers.replaced
  clear lowers
  induction replaced with
  | nil => rfl
  | cons here _ ih =>
    cases here with
    | define name type inner => exact congrArg (name :: ·) ih
    | _ => exact ih

theorem among_eq (lowers : Lowered statements lowered issues rest) :
    among lowered = issues.map Issue.made ++ among rest := by
  rw [lowers.lowered_eq]
  exact List.filterMap_append.trans (congrArg (· ++ among rest) (among_map_toTerm _))

/-- A lowered definition was made, or has the name of a given one. -/
theorem made_or_given (lowers : Lowered statements lowered issues rest) {d : Definition}
    (member : d ∈ among lowered) :
    d ∈ issues.map Issue.made ∨ d.name ∈ (among statements).map name := by
  rw [lowers.among_eq] at member
  rw [← lowers.map_name_rest]
  exact (List.mem_append.mp member).imp_right List.mem_map_of_mem

theorem exists_definition (lowers : Lowered statements lowered issues rest) {n : String}
    (either : n ∈ (issues.map Issue.made).map name ∨ n ∈ (among statements).map name) :
    ∃ d ∈ among lowered, d.name = n := by
  rw [← lowers.map_name_rest, ← List.mem_append, ← List.map_append, ← lowers.among_eq] at either
  exact List.mem_map.mp either

/-- In a program, a reached name that is not given has a definition that was made. -/
theorem exists_made (lowers : Lowered statements lowered issues rest) {p : Program}
    (built : Program.Built lowered p) {n : String}
    (reached : Reaches (Settled statements) statements n)
    (undefined : n ∉ (among statements).map name) :
    ∃ d ∈ p.definitions, d.name = n ∧ d ∈ issues.map Issue.made := by
  have member := (built.resolves.exact n).mpr (lowers.reached_of_reaches built.only reached)
  obtain ⟨d, inside, rfl⟩ := List.mem_map.mp member
  exact ⟨d, inside, rfl,
    (lowers.made_or_given (built.resolves.subset inside)).resolve_right undefined⟩

end Lowered

/-- A name that the commit statement reaches and no given statement defines, but one that was made
for a shared variable. -/
structure Captured (statements : List Term) (made : List Definition) (n : String) : Prop where
  reached : Reaches (Settled statements) statements n
  undefined : n ∉ (among statements).map name
  made : n ∈ made.map name

/-- Lowered statements fail for another reason than an undefined name. -/
def FailsOtherwise (lowered : List Term) : Prop :=
  (lowered.filter Program.isCommit).length ≠ 1 ∨ (∃ n, Conflict (among lowered) n) ∨
    ∃ n, Relation.TransGen (Refers (among lowered)) n n

/-- A reached name that is neither given nor made is not passed over. -/
theorem Lowered.undefined_or_failsOtherwise {f : Fragment} {lowered rest : List Term}
    {issues : List Issue} {hits : Nat} (lowers : Lowered f.statements lowered issues rest)
    (shape : ∀ t ∈ f.statements, t.isStatement = true)
    (program : lowerProgram f.statements = .ok (lowered, hits)) (target : Target) {n : String}
    (reached : Reaches (Settled f.statements) f.statements n)
    (undefined : n ∉ (among f.statements).map name)
    (unmade : n ∉ (issues.map Issue.made).map name) :
    (∃ m, m ∉ (among f.statements).map name ∧ m ∉ (issues.map Issue.made).map name ∧
      (f.generate target).outcome = .error (.undefinedVariable m)) ∨
    FailsOtherwise lowered ∧ ∃ e, (f.generate target).outcome = .error e := by
  have verdict := Program.verdict_ofStatements program (lowers.isStatement shape)
  rw [Fragment.outcome_generate]
  generalize Program.ofStatements f.statements = outcome at verdict
  cases verdict with
  | commitCount several => exact .inr ⟨.inl several, _, rfl⟩
  | conflict one apart => exact .inr ⟨.inr (.inl ⟨_, apart⟩), _, rfl⟩
  | cyclic only consistent reached cycle => exact .inr ⟨.inr (.inr ⟨_, cycle⟩), _, rfl⟩
  | @undefined m commit only consistent reached missing =>
    have absent : ¬ ∃ d ∈ among lowered, d.name = m := by
      rintro ⟨d, member, named⟩
      exact missing d member named
    exact .inl ⟨m, fun given => absent (lowers.exists_definition (.inr given)),
      fun made => absent (lowers.exists_definition (.inl made)), rfl⟩
  | result compiles a =>
    obtain ⟨commit, only⟩ := List.length_eq_one_iff.mp compiles.oneCommit
    obtain ⟨d, member, rfl⟩ := compiles.defined commit (by simp [only]) n
      (lowers.reached_of_reaches only reached)
    rcases lowers.made_or_given member with inside | inside
    · exact absurd (List.mem_map_of_mem inside) unmade
    · exact absurd inside undefined

/-- If statements compile, a name that the commit statement reaches is defined by one of them or
captured by a definition made for a shared variable, so nothing is captured exactly when all reached
names are defined. A name that is neither defined nor captured is not passed over. The names that
are made consist of a stem of the statements and a number, and where shared variables of one key are
the same all their initializers count. -/
theorem reached_defined_iff_uncaptured (f : Fragment)
    (shape : ∀ t ∈ f.statements, t.isStatement = true) (target : Target) :
    ∃ (rest : List Term) (s : Lowering),
      (Term.lowerStatements f.statements).run {} = .ok (rest, s) ∧
      (∀ d ∈ among s.made, ∃ key type init stem index,
        .shared key type init stem ∈ f.statements.flatMap Term.allShared ∧
          d.name = issuedName stem index) ∧
      (Coherent f.statements → ∀ n, Reaches (fun _ => True) f.statements n →
        Reaches (Settled f.statements) f.statements n) ∧
      (∀ text, (f.generate target).outcome = .ok text →
        ((∀ n, Reaches (Settled f.statements) f.statements n → n ∈ (among f.statements).map name) ↔
          ∀ n, ¬ Captured f.statements (among s.made) n) ∧
        ∃ p, Program.ofStatements f.statements = .ok p ∧
          ∀ n, Captured f.statements (among s.made) n →
            ∃ d ∈ p.definitions, d.name = n ∧ d ∈ among s.made) ∧
      ∀ n, Reaches (Settled f.statements) f.statements n → n ∉ (among f.statements).map name →
        n ∉ (among s.made).map name →
        (∃ m, m ∉ (among f.statements).map name ∧ m ∉ (among s.made).map name ∧
          (f.generate target).outcome = .error (.undefinedVariable m)) ∨
        FailsOtherwise (s.made ++ rest) ∧ ∃ e, (f.generate target).outcome = .error e := by
  obtain ⟨rest, s, ran⟩ := exists_run_lowerStatements shape
  obtain ⟨issues, -, made, lowers⟩ := lowered_of_run ran
  have program := lowerProgram_of_run ran
  have issued : among s.made = issues.map Issue.made := by
    rw [made, show issues.map Issue.definition = (issues.map Issue.made).map toTerm by
      rw [List.map_map]; rfl, among_map_toTerm]
  refine ⟨rest, s, ran, ?_, ?_, ?_, ?_⟩
  · intro d member
    rw [issued] at member
    obtain ⟨i, inside, rfl⟩ := List.mem_map.mp member
    exact ⟨i.key, i.type, i.init, i.stem, i.index, lowers.origin i inside, rfl⟩
  · intro coherent n reached
    exact reached.mono fun u member _ => coherent.settled member
  · intro text success
    rw [Fragment.outcome_generate] at success
    obtain ⟨p, compiled, -⟩ := Outcome.bind_eq_ok_iff.mp success
    obtain ⟨lowered, ran', built⟩ := Program.built_of_ofStatements compiled
    obtain ⟨rfl, -⟩ := Prod.mk.inj (Except.ok.inj (program.symm.trans ran'))
    rw [issued]
    refine ⟨⟨fun hygienic n captured => captured.undefined (hygienic n captured.reached), ?_⟩, p,
      compiled, fun n captured => lowers.exists_made built captured.reached captured.undefined⟩
    intro uncaptured n reached
    by_contra undefined
    obtain ⟨d, -, rfl, member⟩ := lowers.exists_made built reached undefined
    exact uncaptured d.name ⟨reached, undefined, List.mem_map_of_mem member⟩
  · intro n reached undefined unmade
    rw [issued] at unmade ⊢
    exact lowers.undefined_or_failsOtherwise shape program target reached undefined unmade

/-- A definition that refers to a name of its own accord, which a sample within it happens to get.
-/
def borrowing : Fragment :=
  ⟨[.define "tint" "vec4" (.call "mix"
      [.shared (.text "texel") "vec4" (.call "texture2D" []) "sample", .ref "sample_0"]),
    .commit (.ref "tint")], .absent⟩

/-- What is made for the sample, and the definition that refers to it twice. -/
def borrowed : List Definition :=
  [⟨"sample_0", "vec4", .call "texture2D" []⟩,
    ⟨"tint", "vec4", .call "mix" [.ref "sample_0", .ref "sample_0"]⟩]

theorem compiles_borrowed : Compiles (borrowed.map toTerm ++ [.commit (.ref "tint")]) := by
  have first : InOrder [⟨"sample_0", "vec4", .call "texture2D" []⟩] := Sequenced.nil.snoc (by simp)
  have both : InOrder ([⟨"sample_0", "vec4", .call "texture2D" []⟩] ++
      [⟨"tint", "vec4", .call "mix" [.ref "sample_0", .ref "sample_0"]⟩]) := first.snoc (by simp)
  exact InOrder.compiles (show InOrder borrowed from both) (by decide) (by decide)

theorem reached_defined_iff_uncaptured_borrowing :
    (∀ t ∈ borrowing.statements, t.isStatement = true) ∧
      (∃ text, (borrowing.generate .webgl).outcome = .ok text) ∧
      ∃ (rest : List Term) (s : Lowering),
        (Term.lowerStatements borrowing.statements).run {} = .ok (rest, s) ∧
        Captured borrowing.statements (among s.made) "sample_0" ∧
        ∃ p, Program.ofStatements borrowing.statements = .ok p ∧
          ∃ d ∈ p.definitions, d.name = "sample_0" ∧ d ∈ among s.made := by
  have shape : ∀ t ∈ borrowing.statements, t.isStatement = true := by decide
  have wellFormed : WellFormed borrowing.statements := ⟨shape, by unfold Term.IsFinite; decide⟩
  have computed : (Term.lowerStatements borrowing.statements).run {} = .ok (
      [.define "tint" "vec4" (.call "mix" [.ref "sample_0", .ref "sample_0"]),
        .commit (.ref "tint")],
      { stems := ["sample"]
        entries := [(.text "texel", "sample_0")]
        hits := 0
        made := [.define "sample_0" "vec4" (.call "texture2D" [])] }) := by rfl
  obtain ⟨text, success⟩ :=
    (Fragment.verdict_generate wellFormed .webgl (lowerProgram_of_run computed)).isOk_iff.mpr
      compiles_borrowed
  obtain ⟨rest, s, ran, -, -, compiled, -⟩ := reached_defined_iff_uncaptured borrowing shape .webgl
  obtain ⟨-, rfl⟩ := Prod.mk.inj (Except.ok.inj (computed.symm.trans ran))
  obtain ⟨-, p, built, placed⟩ := compiled text success
  have commits : .commit (.ref "tint") ∈ borrowing.statements := by simp [borrowing]
  have start : Reaches (Settled borrowing.statements) borrowing.statements "tint" :=
    .commit commits (.own (by simp))
  have defines : .define "tint" "vec4" (.call "mix"
      [.shared (.text "texel") "vec4" (.call "texture2D" []) "sample", .ref "sample_0"]) ∈
      borrowing.statements := by simp [borrowing]
  have captured : Captured borrowing.statements
      (among [.define "sample_0" "vec4" (.call "texture2D" [])]) "sample_0" :=
    ⟨.define start defines (.own (by simp)), by decide, by decide⟩
  exact ⟨shape, ⟨text, success⟩, rest, _, ran, captured, p, built, placed "sample_0" captured⟩

end Lowering

end ShaderFlow
