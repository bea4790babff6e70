import ShaderFlow.Proofs.Kind.Formula
import ShaderFlow.Proofs.Program.Generation

set_option autoImplicit false

namespace ShaderFlow

open Definition Lowering

namespace Lowering

/-- The definition that a lowering makes. -/
def Issue.made (i : Issue) : Definition := ⟨i.name, i.type, i.lowered⟩

theorem map_made_name (issues : List Issue) :
    (issues.map Issue.made).map name = issues.map Issue.name := by
  simp [Issue.made, Function.comp_def]

/-- Lowering keeps the names of definitions and the order of statements. -/
theorem replaces_body {entries : List (Key × String)} {ds : List Definition} {value : Term}
    {rest : List Term}
    (replaced : List.Forall₂ (Term.Replaces entries) (ds.map toTerm ++ [.commit value]) rest) :
    ∃ ds' value', rest = ds'.map toTerm ++ [.commit value'] ∧
      List.Forall₂ (fun d d' => d'.name = d.name ∧ Term.Replaces entries d.init d'.init) ds ds' ∧
      Term.Replaces entries value value' := by
  induction ds generalizing rest with
  | nil =>
    obtain ⟨t, rest, here, there, rfl⟩ := List.forall₂_cons_left_iff.mp replaced
    obtain rfl := List.forall₂_nil_left_iff.mp there
    cases here with
    | @commit _ value' inner => exact ⟨[], value', rfl, .nil, inner⟩
  | cons d ds ih =>
    obtain ⟨t, rest, here, there, rfl⟩ := List.forall₂_cons_left_iff.mp replaced
    obtain ⟨ds', value', rfl, related, last⟩ := ih there
    cases here with
    | @define _ _ _ init' inner =>
      exact ⟨⟨d.name, d.type, init'⟩ :: ds', value', rfl, .cons ⟨rfl, inner⟩ related, last⟩

end Lowering

theorem filter_isCommit (ds : List Definition) (value : Term) :
    (ds.map toTerm ++ [Term.commit value]).filter Program.isCommit = [.commit value] := by
  induction ds with
  | nil => rfl
  | cons d ds ih => exact ih

theorem among_append_commit (ds : List Definition) (value : Term) :
    among (ds.map toTerm ++ [.commit value]) = ds := by
  rw [among, List.filterMap_append, ← among, among_map_toTerm]
  simp [ofTerm?]

/-- Definitions in order, one of each name, compile with whatever refers to them. -/
theorem Definition.InOrder.compiles {ds : List Definition} {value : Term} (inOrder : InOrder ds)
    (nodup : (ds.map name).Nodup) (bound : ∀ n ∈ value.names, n ∈ ds.map name) :
    Compiles (ds.map toTerm ++ [.commit value]) := by
  have one : ∀ d ∈ ds, ∀ e ∈ ds, e.name = d.name → e = d :=
    fun d inD e inE => List.inj_on_of_nodup_map nodup inE inD
  have reached : ∀ n, Reached ds value.names n → n ∈ ds.map name := by
    refine fun n => Reached.mem_of_closed bound ?_
    rintro a - b ⟨d, member, rfl, refers⟩
    exact inOrder.mem_of_needs member refers
  refine ⟨by rw [filter_isCommit]; rfl, ?_, ?_, ?_⟩
  · rw [among_append_commit]
    rintro n ⟨d, inD, e, inE, rfl, named, apart⟩
    obtain rfl := one d inD e inE named
    rw [alike_refl] at apart
    cases apart
  · rw [filter_isCommit, among_append_commit]
    intro commit member n path
    obtain rfl := List.mem_singleton.mp member
    exact List.mem_map.mp (reached n (by simpa using path))
  · rw [filter_isCommit, among_append_commit]
    intro commit member n path
    obtain rfl := List.mem_singleton.mp member
    exact inOrder.not_cyclic nodup one (reached n (by simpa using path))

/-- A program in order: each name has one definition, which refers to earlier ones only, and nothing
is left to be shared. -/
structure Program.Closed (p : Program) : Prop where
  nodup : (p.definitions.map name).Nodup
  inOrder : InOrder p.definitions
  bound : ∀ n ∈ p.commit.names, n ∈ p.definitions.map name
  unshared : ∀ d ∈ p.definitions, d.init.outerShared = []
  commitUnshared : p.commit.outerShared = []

theorem Program.Built.closed {lowered : List Term} {p : Program} (built : Built lowered p)
    (emittable : ∀ t ∈ lowered, Emittable t) : p.Closed where
  nodup := built.resolves.nodup
  inOrder := built.resolves.inOrder
  bound n member := (built.resolves.exact n).mpr (.root member)
  unshared d member := by
    simpa [toTerm] using (emittable _ (mem_among.mp (built.resolves.subset member))).unshared
  commitUnshared := (emittable _ (mem_of_only built.only)).unshared

namespace Fragment

/-- What a fragment over a catalog becomes when it is finished and lowered: its samples, its own
definitions and its commit statement. -/
structure Laid (f : Fragment) (issues : List Issue) (ds : List Definition) (value : Term) :
    Prop where
  own : List.Forall₂ (fun d d' => d'.name = d.name ∧
    Term.Replaces (issues.map Issue.entry).reverse d.init d'.init) (among f.statements) ds
  value : Term.Replaces (issues.map Issue.entry).reverse f.value value
  inOrder : Issue.InOrder [] issues
  samples : ∀ i ∈ issues, ∃ dx dy, i.origin = Kind.blurSample dx dy
  distinct : (issues.map Issue.name).Nodup

variable {c : List Definition} {f : Fragment}

theorem wellFormed_complete (catalog : Catalog c) (scope : Scoped c f) :
    WellFormed (f.complete [.commit f.value]).statements := by
  have each : ∀ t ∈ f.statements ++ [.commit f.value], t.isStatement = true ∧ t.IsFinite := by
    intro t member
    rcases List.mem_append.mp member with member | last
    · rw [scope.only] at member
      obtain ⟨d, inside, rfl⟩ := List.mem_map.mp member
      have regular := catalog.regular d (scope.listed inside)
      exact ⟨regular.shape, regular.finite⟩
    · obtain rfl := List.mem_singleton.mp last
      exact ⟨scope.regular.shape, scope.regular.finite⟩
  exact ⟨fun t member => (each t member).1, fun t member => (each t member).2⟩

theorem exists_laid (catalog : Catalog c) (scope : Scoped c f) :
    ∃ hits issues ds value, Laid f issues ds value ∧
      lowerProgram (f.complete [.commit f.value]).statements =
        .ok ((issues.map Issue.made ++ ds).map toTerm ++ [.commit value], hits) := by
  obtain ⟨lowered, hits, ran⟩ := exists_lowerProgram (wellFormed_complete catalog scope).shape
  obtain ⟨issues, rest, split, replaced, inOrder, origin, distinct⟩ := lowered_of_lowerProgram ran
  have statements : (f.complete [.commit f.value]).statements =
      (among f.statements).map toTerm ++ [.commit f.value] := by
    rw [← scope.only]
    rfl
  rw [statements] at replaced origin
  obtain ⟨ds, value, rfl, own, last⟩ := replaces_body replaced
  refine ⟨hits, issues, ds, value, ⟨own, last, inOrder, fun i member => ?_, distinct⟩, ?_⟩
  · obtain ⟨t, inside, found⟩ := List.mem_flatMap.mp (origin i member)
    rcases List.mem_append.mp inside with inside | last
    · obtain ⟨d, within, rfl⟩ := List.mem_map.mp inside
      exact (catalog.regular d (scope.listed within)).samples _ (by simpa [toTerm] using found)
    · obtain rfl := List.mem_singleton.mp last
      exact scope.regular.samples _ (by simpa using found)
  · rw [ran, split]
    simp [Issue.made, Issue.definition, toTerm]

namespace Laid

variable {issues : List Issue} {ds : List Definition} {value : Term}

/-- Each sample is defined as it was given. -/
theorem sample (laid : Laid f issues ds value) {i : Issue} (member : i ∈ issues) :
    ∃ dx dy, i.origin = Kind.blurSample dx dy ∧
      i.lowered = Kind.textureSample (Kind.smallNumber dx) (Kind.smallNumber dy) := by
  obtain ⟨dx, dy, origin⟩ := laid.samples i member
  have init : i.init = Kind.textureSample (Kind.smallNumber dx) (Kind.smallNumber dy) :=
    (Term.shared.inj origin).2.2.1
  have related := Issue.replaces_of_inOrder laid.inOrder member
  rw [init] at related
  exact ⟨dx, dy, origin, related.eq_of_unshared (by simp)⟩

theorem map_name (laid : Laid f issues ds value) : ds.map name = (among f.statements).map name := by
  obtain ⟨own, -⟩ := laid
  generalize among f.statements = given at own
  induction own with
  | nil => rfl
  | cons here _ ih => rw [List.map_cons, List.map_cons, here.1, ih]

/-- A term in which the samples were named refers to what it referred to, or to samples. -/
theorem names_subset {t u : Term} (related : Term.Replaces (issues.map Issue.entry).reverse t u)
    {n : String} (member : n ∈ u.names) :
    n ∈ t.names ∨ n ∈ (issues.map Issue.made).map name := by
  rcases related.names_subset member with found | ⟨key, listed⟩
  · exact .inl found
  · rw [List.mem_reverse] at listed
    obtain ⟨i, inside, same⟩ := List.mem_map.mp listed
    rw [map_made_name]
    exact .inr (List.mem_map.mpr ⟨i, inside, (Prod.mk.inj same).2⟩)

theorem nodup (laid : Laid f issues ds value) (scope : Scoped c f)
    (unsampled : ∀ d ∈ c, ∀ index, d.name ≠ issuedName Term.defaultStem index) :
    ((issues.map Issue.made ++ ds).map name).Nodup := by
  rw [List.map_append, map_made_name, laid.map_name, List.nodup_append]
  refine ⟨laid.distinct, scope.nodup, ?_⟩
  intro n issued n' given same
  obtain ⟨i, member, rfl⟩ := List.mem_map.mp issued
  obtain ⟨d, inside, rfl⟩ := List.mem_map.mp given
  obtain ⟨dx, dy, origin, -⟩ := laid.sample member
  have stem : i.stem = Term.defaultStem := (Term.shared.inj origin).2.2.2
  refine unsampled d (scope.listed inside) i.index ?_
  rw [← same, Issue.name, stem]

theorem definitions_inOrder (laid : Laid f issues ds value) (scope : Scoped c f) :
    InOrder (issues.map Issue.made ++ ds) := by
  -- Samples refer to nothing, so they stay in order before whatever was in order.
  have first : InOrder (issues.map Issue.made) := by
    intro front d back split n refers
    have member : d ∈ issues.map Issue.made := by simp [split]
    obtain ⟨i, inside, rfl⟩ := List.mem_map.mp member
    obtain ⟨dx, dy, -, lowered⟩ := laid.sample inside
    simp [Issue.made, lowered] at refers
  suffices steps : ∀ given done done' : List Definition, ∀ ds,
      List.Forall₂ (fun d d' => d'.name = d.name ∧
        Term.Replaces (issues.map Issue.entry).reverse d.init d'.init) given ds →
      done'.map name = done.map name → InOrder (done ++ given) →
      InOrder (issues.map Issue.made ++ done') →
      InOrder (issues.map Issue.made ++ done' ++ ds) from by
    simpa using steps _ [] [] ds laid.own rfl scope.inOrder (by simpa using first)
  intro given done done' ds own
  induction own generalizing done done' with
  | nil => exact fun _ _ sorted => by simpa using sorted
  | @cons d d' given ds here _ ih =>
    intro names inOrder sorted
    have next : InOrder (issues.map Issue.made ++ (done' ++ [d'])) := by
      rw [← List.append_assoc]
      refine sorted.snoc fun n refers => ?_
      rw [List.map_append, List.mem_append]
      rcases names_subset here.2 refers with before | sampled
      · rw [names]
        exact .inr (inOrder done d given rfl n before)
      · exact .inl sampled
    have result := ih (done ++ [d]) (done' ++ [d']) (by simp [names, here.1])
      (by simpa using inOrder) next
    simpa using result

theorem bound (laid : Laid f issues ds value) (scope : Scoped c f) :
    ∀ n ∈ value.names, n ∈ (issues.map Issue.made ++ ds).map name := by
  intro n member
  rw [List.map_append, List.mem_append, laid.map_name]
  rcases names_subset laid.value member with before | sampled
  · exact .inr (scope.bound n before)
  · exact .inl sampled

/-- Equal keys mean equal samples, so naming the samples of a term keeps its meaning. -/
theorem inlineWith_eq (laid : Laid f issues ds value) {ρ : String → Term}
    (explained : ∀ i ∈ issues, ρ i.name = i.lowered.inlineWith ρ) {t u : Term} (regular : t.Regular)
    (related : Term.Replaces (issues.map Issue.entry).reverse t u) :
    u.inlineWith ρ = t.inlineWith ρ := by
  refine related.inlineWith_eq fun key type init stem member n listed => ?_
  obtain ⟨dx, dy, same⟩ := regular.samples _ (Term.gather_subset_deep _ _ member)
  rw [List.mem_reverse] at listed
  obtain ⟨i, inside, entry⟩ := List.mem_map.mp listed
  obtain ⟨rfl, rfl⟩ := Prod.mk.inj entry
  obtain ⟨dx', dy', origin, lowered⟩ := laid.sample inside
  obtain ⟨rfl, rfl⟩ :=
    Kind.sampleKey_inj ((Term.shared.inj same).1.symm.trans (Term.shared.inj origin).1)
  rw [explained i inside, lowered, Term.inlineWith_eq_ungroup (by simp) (by simp)]
  rw [(Term.shared.inj same).2.2.1]

/-- The lowered value means what the value of the fragment meant. -/
theorem means (laid : Laid f issues ds value) (catalog : Catalog c) (scope : Scoped c f)
    (unsampled : ∀ d ∈ c, ∀ index, d.name ≠ issuedName Term.defaultStem index) :
    value.inlineWith (environment (issues.map Issue.made ++ ds)) =
      f.value.inlineWith (environment c) := by
  have equations := fun d => @environment_eq _ (laid.nodup scope unsampled)
    (laid.definitions_inOrder scope) d
  have explained : ∀ i ∈ issues, environment (issues.map Issue.made ++ ds) i.name =
      i.lowered.inlineWith (environment (issues.map Issue.made ++ ds)) := fun i member =>
    equations i.made (List.mem_append_left _ (List.mem_map.mpr ⟨i, member, rfl⟩))
  have left : ∀ d ∈ among f.statements, environment (issues.map Issue.made ++ ds) d.name =
      d.init.inlineWith (environment (issues.map Issue.made ++ ds)) := by
    intro d member
    have backward : List.Forall₂ (fun d' d => d'.name = d.name ∧
        Term.Replaces (issues.map Issue.entry).reverse d.init d'.init) ds (among f.statements) :=
      laid.own.flip
    obtain ⟨d', inside, named, related⟩ := exists_of_forall₂ backward member
    rw [← laid.inlineWith_eq explained (catalog.regular d (scope.listed member)) related, ← named]
    exact equations d' (List.mem_append_right _ inside)
  have agree := scope.inOrder.agree left fun d member =>
    environment_eq catalog.nodup catalog.inOrder (scope.listed member)
  rw [laid.inlineWith_eq explained scope.regular laid.value]
  exact Term.inlineWith_congr fun n member => agree n (scope.bound n member)

end Laid

/-- The program made of a laid fragment commits its value, with definitions out of those laid. -/
theorem Laid.program {issues : List Issue} {ds : List Definition} {value : Term} {hits : Nat}
    {p : Program} (catalog : Catalog c) (scope : Scoped c f)
    (ran : lowerProgram (f.complete [.commit f.value]).statements =
      .ok ((issues.map Issue.made ++ ds).map toTerm ++ [.commit value], hits))
    (made : Program.ofStatements (f.complete [.commit f.value]).statements = .ok p) :
    p.Closed ∧ p.commit = .commit value ∧ p.definitions ⊆ issues.map Issue.made ++ ds := by
  obtain ⟨lowered, ran', built⟩ := Program.built_of_ofStatements made
  obtain rfl : _ = lowered := (Prod.mk.inj (Except.ok.inj (ran.symm.trans ran'))).1
  refine ⟨built.closed ((wellFormed_complete catalog scope).emittable ran), ?_, ?_⟩
  · have only := built.only
    rw [filter_isCommit] at only
    exact (List.cons.inj only).1.symm
  · have subset := built.resolves.subset
    rwa [among_append_commit] at subset

/-- A finished fragment over a catalog makes a program, and its commit statement means the value. -/
theorem exists_program (catalog : Catalog c) (scope : Scoped c f)
    (unsampled : ∀ d ∈ c, ∀ index, d.name ≠ issuedName Term.defaultStem index) :
    ∃ p, Program.ofStatements (f.complete [.commit f.value]).statements = .ok p ∧ p.Closed ∧
      p.commit.inlineWith (environment p.definitions) =
        .commit (f.value.inlineWith (environment c)) := by
  obtain ⟨hits, issues, ds, value, laid, ran⟩ := exists_laid catalog scope
  have wellFormed := wellFormed_complete catalog scope
  have emittable := wellFormed.emittable ran
  have nodup := laid.nodup scope unsampled
  have inOrder := laid.definitions_inOrder scope
  obtain ⟨p, made⟩ := (Program.verdict_ofStatements ran fun t member =>
    (emittable t member).shape).isOk_iff.mpr (inOrder.compiles nodup (laid.bound scope))
  obtain ⟨closed, commit, listed⟩ := Laid.program catalog scope ran made
  -- Dropping what is not reached changes no meaning.
  have agree := closed.inOrder.agree
    (fun d member => environment_eq closed.nodup closed.inOrder member)
    fun d member => environment_eq nodup inOrder (listed member)
  refine ⟨p, made, closed, ?_⟩
  rw [Term.inlineWith_congr fun n member => agree n (closed.bound n member), commit,
    Term.inlineWith_commit, laid.means catalog scope unsampled]

end Fragment

end ShaderFlow
