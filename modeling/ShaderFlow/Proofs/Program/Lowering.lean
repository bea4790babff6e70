import ShaderFlow.Program.Lowering
import ShaderFlow.Proofs.Program.Replacement
import ShaderFlow.Proofs.Text.Label

set_option autoImplicit false

/-
A run of a lowering issues definitions, each for a shared variable that it met. The lowered terms
are the given ones with references to issued names in place of shared variables, and no name is
issued twice. A key gets a second definition only around the first.
-/

namespace ShaderFlow.Lowering

/-- The name that a stem and a number make. -/
def issuedName (stem : String) (index : Nat) : String := s!"{stem}_{index}"

theorem issuedName_inj {stem stem' : String} {index index' : Nat}
    (same : issuedName stem index = issuedName stem' index') : stem = stem' ∧ index = index' := by
  have joined : stem ++ "_" ++ index.repr = stem' ++ "_" ++ index'.repr := same
  obtain ⟨stems, numerals⟩ := Label.join_inj_right (Label.underscore_not_mem_natRepr index)
    (Label.underscore_not_mem_natRepr index') joined
  exact ⟨stems, Nat.repr_inj.mp numerals⟩

/-- One definition that a lowering makes: the shared variable it is for, the number in its name and
its lowered initializer. -/
structure Issue where
  key : Key
  type : String
  init : Term
  stem : String
  index : Nat
  lowered : Term

namespace Issue

def name (i : Issue) : String := issuedName i.stem i.index

def entry (i : Issue) : Key × String := (i.key, i.name)

def definition (i : Issue) : Term := .define i.name i.type i.lowered

def origin (i : Issue) : Term := .shared i.key i.type i.init i.stem

/-- If the two are for one key, the shared variable of the first is within that of the second. -/
def Nested (i j : Issue) : Prop := i.key = j.key → i.origin ∈ j.init.allShared

/-- Each initializer is lowered with what was entered before. -/
def InOrder : List (Key × String) → List Issue → Prop
  | _, [] => True
  | entries, i :: rest => Term.Replaces entries i.init i.lowered ∧ InOrder (i.entry :: entries) rest

theorem inOrder_append (entries : List (Key × String)) (first second : List Issue) :
    InOrder entries (first ++ second) ↔
      InOrder entries first ∧ InOrder ((first.map entry).reverse ++ entries) second := by
  induction first generalizing entries with
  | nil => simp [InOrder]
  | cons i rest ih => simp [InOrder, ih, and_assoc]

/-- In the end every initializer is lowered with all entries. -/
theorem replaces_of_inOrder {entries : List (Key × String)} {issues : List Issue}
    (inOrder : InOrder entries issues) {i : Issue} (member : i ∈ issues) :
    Term.Replaces ((issues.map entry).reverse ++ entries) i.init i.lowered := by
  induction issues generalizing entries with
  | nil => cases member
  | cons j rest ih =>
    rcases List.mem_cons.mp member with rfl | member
    · refine inOrder.1.mono ?_
      intro entry listed
      simp [listed]
    · simpa using ih inOrder.2 member

end Issue

/-- What a run that meets the shared variables `origins` does to the state. -/
structure Advance (origins : List Term) (s s' : Lowering) (issues : List Issue) : Prop where
  entries : s'.entries = (issues.map Issue.entry).reverse ++ s.entries
  made : s'.made = s.made ++ issues.map Issue.definition
  inOrder : Issue.InOrder s.entries issues
  origin : ∀ i ∈ issues, i.origin ∈ origins
  stems : ∀ stem, s.stems.count stem ≤ s'.stems.count stem
  numbered : ∀ i ∈ issues, s.stems.count i.stem ≤ i.index ∧ i.index < s'.stems.count i.stem
  distinct : (issues.map Issue.name).Nodup
  fresh : ∀ i ∈ issues, i.key ∉ s.entries.map Prod.fst
  nested : issues.Pairwise Issue.Nested

namespace Advance

variable {origins more : List Term} {s s₁ s₂ : Lowering} {issues later : List Issue}

/-- Nothing is issued when only hits are counted. -/
theorem idle (origins : List Term) (s : Lowering) (hits : Nat) :
    Advance origins s { s with hits } [] where
  entries := rfl
  made := by simp
  inOrder := trivial
  origin := by simp
  stems _ := Nat.le_refl _
  numbered := by simp
  distinct := by simp
  fresh := by simp
  nested := .nil

theorem subset_entries (advance : Advance origins s s₁ issues) : s.entries ⊆ s₁.entries := by
  intro entry listed
  simp [advance.entries, listed]

/-- Names of an earlier run have smaller numbers than those of a later one. -/
theorem trans (first : Advance origins s s₁ issues) (second : Advance more s₁ s₂ later) :
    Advance (origins ++ more) s s₂ (issues ++ later) where
  entries := by rw [second.entries, first.entries]; simp
  made := by rw [second.made, first.made]; simp
  inOrder := by
    rw [Issue.inOrder_append, ← first.entries]
    exact ⟨first.inOrder, second.inOrder⟩
  origin := by
    intro i member
    rcases List.mem_append.mp member with member | member
    · simp [first.origin i member]
    · simp [second.origin i member]
  stems stem := Nat.le_trans (first.stems stem) (second.stems stem)
  numbered := by
    intro i member
    have early := first.stems i.stem
    have late := second.stems i.stem
    rcases List.mem_append.mp member with member | member
    · have := first.numbered i member
      omega
    · have := second.numbered i member
      omega
  distinct := by
    rw [List.map_append, List.nodup_append]
    refine ⟨first.distinct, second.distinct, ?_⟩
    intro name early name' late same
    obtain ⟨i, inFirst, rfl⟩ := List.mem_map.mp early
    obtain ⟨j, inSecond, rfl⟩ := List.mem_map.mp late
    obtain ⟨stems, indices⟩ := issuedName_inj same
    have low := (first.numbered i inFirst).2
    have high := (second.numbered j inSecond).1
    rw [stems] at low
    omega
  fresh := by
    intro i member known
    rcases List.mem_append.mp member with member | member
    · exact first.fresh i member known
    · apply second.fresh i member
      rw [first.entries, List.map_append]
      exact List.mem_append_right _ known
  nested := by
    rw [List.pairwise_append]
    refine ⟨first.nested, second.nested, fun i inFirst j inSecond same => ?_⟩
    -- The key was entered by the earlier run, so the later one found it.
    have entered : j.key ∈ s₁.entries.map Prod.fst := by
      rw [first.entries, ← same]
      exact List.mem_map.mpr ⟨i.entry, by simp [List.mem_map_of_mem inFirst], rfl⟩
    exact absurd entered (second.fresh j inSecond)

/-- The issue for a shared variable comes behind those for its initializer. Its number was taken
before, so none of those has it. -/
theorem issue {key : Key} {type stem : String} {init lowered : Term}
    (new : s.entries.lookup key = none)
    (inner : Advance init.allShared { s with stems := stem :: s.stems } s₁ issues)
    (replaced : Term.Replaces s₁.entries init lowered) :
    Advance (Term.allShared (.shared key type init stem)) s
      { s₁ with
        entries := (key, issuedName stem (s.stems.count stem)) :: s₁.entries
        made := s₁.made ++ [.define (issuedName stem (s.stems.count stem)) type lowered] }
      (issues ++ [⟨key, type, init, stem, s.stems.count stem, lowered⟩]) where
  entries := by simp [inner.entries, Issue.entry, Issue.name]
  made := by simp [inner.made, Issue.definition, Issue.name]
  inOrder := by
    rw [Issue.inOrder_append]
    refine ⟨inner.inOrder, ?_, trivial⟩
    rw [show s.entries = ({ s with stems := stem :: s.stems } : Lowering).entries from rfl,
      ← inner.entries]
    exact replaced
  origin := by
    intro i member
    rcases List.mem_append.mp member with member | member
    · simp [inner.origin i member]
    · obtain rfl := List.mem_singleton.mp member
      simp [Issue.origin]
  stems other := by
    have := inner.stems other
    simp only [List.count_cons] at this ⊢
    omega
  numbered := by
    intro i member
    rcases List.mem_append.mp member with member | member
    · have := inner.numbered i member
      simp only [List.count_cons] at this
      exact ⟨by omega, this.2⟩
    · obtain rfl := List.mem_singleton.mp member
      have := inner.stems stem
      simp only [List.count_cons_self] at this
      exact ⟨Nat.le_refl _, this⟩
  distinct := by
    rw [List.map_append, List.nodup_append]
    refine ⟨inner.distinct, by simp, ?_⟩
    intro name early name' late same
    obtain ⟨i, member, rfl⟩ := List.mem_map.mp early
    obtain rfl : name' = issuedName stem (s.stems.count stem) := by simpa [Issue.name] using late
    obtain ⟨stems, indices⟩ := issuedName_inj same
    have high := (inner.numbered i member).1
    rw [stems, List.count_cons_self] at high
    omega
  fresh := by
    intro i member
    rcases List.mem_append.mp member with member | member
    · exact inner.fresh i member
    · obtain rfl := List.mem_singleton.mp member
      intro known
      obtain ⟨entry, listed, same⟩ := List.mem_map.mp known
      simpa [same] using List.lookup_eq_none_iff.mp new entry listed
  nested := by
    rw [List.pairwise_append]
    refine ⟨inner.nested, List.pairwise_singleton _ _, fun i member j last _ => ?_⟩
    obtain rfl := List.mem_singleton.mp last
    exact inner.origin i member

end Advance

/-- Every run of `f` that lowers `t` gives `t` with shared variables replaced. -/
def Lowers (f : Term → LowerM Term) (t : Term) : Prop :=
  ∀ s u s', (f t).run s = .ok (u, s') →
    Term.Replaces s'.entries t u ∧ ∃ issues, Advance t.allShared s s' issues

theorem run_bind_eq_ok_iff {α β : Type} {first : LowerM α} {next : α → LowerM β} {s s' : Lowering}
    {b : β} : (first >>= next).run s = .ok (b, s') ↔
      ∃ a s₁, first.run s = .ok (a, s₁) ∧ (next a).run s₁ = .ok (b, s') := by
  rw [StateT.run_bind, Outcome.bind_eq_ok_iff]
  constructor
  · rintro ⟨⟨a, s₁⟩, here, there⟩
    exact ⟨a, s₁, here, there⟩
  · rintro ⟨a, s₁, here, there⟩
    exact ⟨(a, s₁), here, there⟩

theorem lowers_mapM {f : Term → LowerM Term} {ts : List Term} (each : ∀ t ∈ ts, Lowers f t)
    {s s' : Lowering} {us : List Term} (success : (ts.mapM f).run s = .ok (us, s')) :
    List.Forall₂ (Term.Replaces s'.entries) ts us ∧
      ∃ issues, Advance (ts.flatMap Term.allShared) s s' issues := by
  induction ts generalizing s us with
  | nil =>
    cases success
    exact ⟨.nil, [], .idle _ s' s'.hits⟩
  | cons t ts ih =>
    rw [List.mapM_cons, run_bind_eq_ok_iff] at success
    obtain ⟨u, s₁, here, success⟩ := success
    obtain ⟨us, s₂, there, same⟩ := run_bind_eq_ok_iff.mp success
    cases same
    obtain ⟨replaced, issues, first⟩ := each t (by simp) s u s₁ here
    obtain ⟨rest, later, second⟩ := ih (fun t member => each t (by simp [member])) there
    refine ⟨.cons (replaced.mono second.subset_entries) rest, issues ++ later, ?_⟩
    simpa using first.trans second

theorem run_lower_shared_of_found {key : Key} {name : String} (type : String) (init : Term)
    (stem : String) {s : Lowering} (found : s.entries.lookup key = some name) :
    (Term.lower (.shared key type init stem)).run s =
      .ok (.ref name, { s with hits := s.hits + 1 }) := by
  simp [Term.lower, lookup, found]
  rfl

theorem run_lower_shared_of_new {key : Key} (type : String) (init : Term) (stem : String)
    {s : Lowering} (new : s.entries.lookup key = none) {u : Term} {s' : Lowering} :
    (Term.lower (.shared key type init stem)).run s = .ok (u, s') ↔
      ∃ lowered s₁, init.lower.run { s with stems := stem :: s.stems } = .ok (lowered, s₁) ∧
        u = .ref (issuedName stem (s.stems.count stem)) ∧
        s' = { s₁ with
          entries := (key, issuedName stem (s.stems.count stem)) :: s₁.entries
          made := s₁.made ++ [.define (issuedName stem (s.stems.count stem)) type lowered] } := by
  have unfolded : (Term.lower (.shared key type init stem)).run s =
      (fun r : Term × Lowering => (Term.ref (issuedName stem (s.stems.count stem)),
        { r.2 with
          entries := (key, issuedName stem (s.stems.count stem)) :: r.2.entries
          made := r.2.made ++ [.define (issuedName stem (s.stems.count stem)) type r.1] })) <$>
        init.lower.run { s with stems := stem :: s.stems } := by
    simp [Term.lower, lookup, reserve, record, allocate, new, issuedName]
  rw [unfolded, Outcome.map_eq_ok_iff]
  constructor
  · rintro ⟨⟨lowered, s₁⟩, ran, same⟩
    cases same
    exact ⟨lowered, s₁, ran, rfl, rfl⟩
  · rintro ⟨lowered, s₁, ran, rfl, rfl⟩
    exact ⟨(lowered, s₁), ran, rfl⟩

/-- The lowering of a part of raw text. -/
def lowerPart : Term → LowerM Term
  | .text s => pure (.text s)
  | t => t.lower

theorem lowerAll_eq_mapM (ts : List Term) : Term.lowerAll ts = ts.mapM Term.lower := by
  induction ts with
  | nil => rfl
  | cons t ts ih => rw [Term.lowerAll, List.mapM_cons, ih]

theorem lowerParts_eq_mapM (ts : List Term) : Term.lowerParts ts = ts.mapM lowerPart := by
  induction ts with
  | nil => rfl
  | cons t ts ih => cases t <;> simp [Term.lowerParts, List.mapM_cons, ih, lowerPart]

theorem lowerStatements_eq_mapM (ts : List Term) :
    Term.lowerStatements ts = ts.mapM Term.lowerStatement := by
  induction ts with
  | nil => rfl
  | cons t ts ih => rw [Term.lowerStatements, List.mapM_cons, ih]

theorem lowers_part {t : Term} (inner : Lowers Term.lower t) : Lowers lowerPart t := by
  intro s u s' success
  cases t with
  | text c =>
    cases success
    exact ⟨.text c, [], .idle _ s s.hits⟩
  | _ => exact inner s u s' success

theorem lowers_lower (t : Term) : Lowers Term.lower t := by
  induction t using Term.induction with
  | number x =>
    intro s u s' success
    cases success
    exact ⟨.number x, [], .idle _ s s.hits⟩
  | ref name =>
    intro s u s' success
    cases success
    exact ⟨.ref name, [], .idle _ s s.hits⟩
  | vec type args ih =>
    intro s u s' success
    rw [Term.lower, lowerAll_eq_mapM] at success
    obtain ⟨us, s₁, ran, same⟩ := run_bind_eq_ok_iff.mp success
    cases same
    obtain ⟨replaced, issues, advance⟩ := lowers_mapM ih ran
    exact ⟨.vec type replaced, issues, by simpa using advance⟩
  | call func args ih =>
    intro s u s' success
    rw [Term.lower, lowerAll_eq_mapM] at success
    obtain ⟨us, s₁, ran, same⟩ := run_bind_eq_ok_iff.mp success
    cases same
    obtain ⟨replaced, issues, advance⟩ := lowers_mapM ih ran
    exact ⟨.call func replaced, issues, by simpa using advance⟩
  | raw parts ih =>
    intro s u s' success
    rw [Term.lower, lowerParts_eq_mapM] at success
    obtain ⟨us, s₁, ran, same⟩ := run_bind_eq_ok_iff.mp success
    cases same
    obtain ⟨replaced, issues, advance⟩ :=
      lowers_mapM (fun t member => lowers_part (ih t member)) ran
    exact ⟨.raw replaced, issues, by simpa using advance⟩
  | swizzle base components ih =>
    intro s u s' success
    rw [Term.lower] at success
    obtain ⟨lowered, s₁, ran, same⟩ := run_bind_eq_ok_iff.mp success
    cases same
    obtain ⟨replaced, issues, advance⟩ := ih s lowered _ ran
    exact ⟨.swizzle components replaced, issues, by simpa using advance⟩
  | shared key type init stem ih =>
    intro s u s' success
    cases known : s.entries.lookup key with
    | some name =>
      rw [run_lower_shared_of_found type init stem known] at success
      cases success
      obtain ⟨front, back, split, _⟩ := List.lookup_eq_some_iff.mp known
      exact ⟨.shared key type init stem name (by simp [split]), [], .idle _ s _⟩
    | none =>
      obtain ⟨lowered, s₁, ran, rfl, rfl⟩ :=
        (run_lower_shared_of_new type init stem known).mp success
      obtain ⟨replaced, issues, advance⟩ := ih _ lowered s₁ ran
      exact ⟨.shared key type init stem _ (by simp), _, advance.issue known replaced⟩
  | absent | text | define | commit =>
    intro s u s' success
    cases success

theorem lowers_statement (t : Term) : Lowers Term.lowerStatement t := by
  intro s u s' success
  cases t with
  | define name type init =>
    obtain ⟨lowered, s₁, ran, same⟩ := run_bind_eq_ok_iff.mp success
    cases same
    obtain ⟨replaced, issues, advance⟩ := lowers_lower init s lowered _ ran
    exact ⟨.define name type replaced, issues, by simpa using advance⟩
  | commit value =>
    obtain ⟨lowered, s₁, ran, same⟩ := run_bind_eq_ok_iff.mp success
    cases same
    obtain ⟨replaced, issues, advance⟩ := lowers_lower value s lowered _ ran
    exact ⟨.commit replaced, issues, by simpa using advance⟩
  | _ => cases success

/-- The statements `lowered` come from `statements`: first the issued definitions, then the given
statements with their shared variables replaced. -/
structure Lowered (statements lowered : List Term) (issues : List Issue) (rest : List Term) :
    Prop where
  split : lowered = issues.map Issue.definition ++ rest
  replaced : List.Forall₂ (Term.Replaces (issues.map Issue.entry).reverse) statements rest
  inOrder : Issue.InOrder [] issues
  origin : ∀ i ∈ issues, i.origin ∈ statements.flatMap Term.allShared
  distinct : (issues.map Issue.name).Nodup
  nested : issues.Pairwise Issue.Nested

/-- The initializers of shared variables in statements are expressions. -/
theorem isExpression_of_mem_allShared {statements : List Term}
    (shape : ∀ t ∈ statements, t.isStatement = true) {key : Key} {type : String} {init : Term}
    {stem : String} (member : .shared key type init stem ∈ statements.flatMap Term.allShared) :
    init.isExpression = true := by
  obtain ⟨t, inside, found⟩ := List.mem_flatMap.mp member
  have shape := shape t inside
  cases t with
  | define name type value => exact Term.isExpression_init (t := value) shape (by simpa using found)
  | commit value => exact Term.isExpression_init (t := value) shape (by simpa using found)
  | _ => cases shape

namespace Lowered

variable {statements lowered rest : List Term} {issues : List Issue}

theorem replaces (lowers : Lowered statements lowered issues rest) {i : Issue}
    (member : i ∈ issues) :
    Term.Replaces (issues.map Issue.entry).reverse i.init i.lowered := by
  simpa using Issue.replaces_of_inOrder lowers.inOrder member

/-- A lowered statement is a definition that was issued, or comes from a given statement. -/
theorem mem_cases (lowers : Lowered statements lowered issues rest) {t : Term}
    (member : t ∈ lowered) :
    (∃ i ∈ issues, t = i.definition ∧
      Term.Replaces (issues.map Issue.entry).reverse i.init i.lowered) ∨
    ∃ s ∈ statements, Term.Replaces (issues.map Issue.entry).reverse s t := by
  rw [lowers.split, List.mem_append] at member
  rcases member with issued | given
  · obtain ⟨i, inside, rfl⟩ := List.mem_map.mp issued
    exact .inl ⟨i, inside, rfl, lowers.replaces inside⟩
  · exact .inr (exists_of_forall₂ lowers.replaced given)

theorem isStatement (lowers : Lowered statements lowered issues rest)
    (shape : ∀ t ∈ statements, t.isStatement = true) : ∀ t ∈ lowered, t.isStatement = true := by
  intro t member
  rcases lowers.mem_cases member with ⟨i, inside, rfl, related⟩ | ⟨s, inside, related⟩
  · exact related.isExpression (isExpression_of_mem_allShared shape (lowers.origin i inside))
  · exact related.isStatement (shape s inside)

theorem unshared (lowers : Lowered statements lowered issues rest) (deep : Bool) :
    ∀ t ∈ lowered, t.gather Term.sharedLeaf deep = [] := by
  intro t member
  rcases lowers.mem_cases member with ⟨i, inside, rfl, related⟩ | ⟨s, inside, related⟩
  · exact related.unshared deep
  · exact related.unshared deep

end Lowered

theorem lowered_of_run {statements rest : List Term} {s : Lowering}
    (ran : (Term.lowerStatements statements).run {} = .ok (rest, s)) :
    ∃ issues, s.entries = (issues.map Issue.entry).reverse ∧ s.made = issues.map Issue.definition ∧
      Lowered statements (s.made ++ rest) issues rest := by
  rw [lowerStatements_eq_mapM] at ran
  obtain ⟨replaced, issues, advance⟩ := lowers_mapM (fun t _ => lowers_statement t) ran
  have entries : s.entries = (issues.map Issue.entry).reverse := by simpa using advance.entries
  have made : s.made = issues.map Issue.definition := by simpa using advance.made
  rw [entries] at replaced
  exact ⟨issues, entries, made, by rw [made], replaced, advance.inOrder, advance.origin,
    advance.distinct, advance.nested⟩

theorem lowered_of_lowerProgram {statements lowered : List Term} {hits : Nat}
    (success : lowerProgram statements = .ok (lowered, hits)) :
    ∃ issues rest, Lowered statements lowered issues rest := by
  rw [lowerProgram, Outcome.bind_eq_ok_iff] at success
  obtain ⟨⟨rest, s⟩, ran, same⟩ := success
  cases same
  obtain ⟨issues, -, -, lowers⟩ := lowered_of_run ran
  exact ⟨issues, rest, lowers⟩

theorem exists_run_mapM {f : Term → LowerM Term} {ts : List Term}
    (each : ∀ t ∈ ts, ∀ s, ∃ r, (f t).run s = .ok r) (s : Lowering) :
    ∃ r, (ts.mapM f).run s = .ok r := by
  induction ts generalizing s with
  | nil => exact ⟨([], s), rfl⟩
  | cons t ts ih =>
    obtain ⟨⟨u, s₁⟩, here⟩ := each t (by simp) s
    obtain ⟨⟨us, s₂⟩, there⟩ := ih (fun t member => each t (by simp [member])) s₁
    refine ⟨(u :: us, s₂), ?_⟩
    rw [List.mapM_cons]
    exact run_bind_eq_ok_iff.mpr ⟨u, s₁, here, run_bind_eq_ok_iff.mpr ⟨us, s₂, there, rfl⟩⟩

/-- An expression can be lowered from any state. -/
theorem exists_run_lower (t : Term) (shape : t.isExpression = true) (s : Lowering) :
    ∃ r, t.lower.run s = .ok r := by
  induction t using Term.induction generalizing s with
  | number x => exact ⟨(.number x, s), rfl⟩
  | ref name => exact ⟨(.ref name, s), rfl⟩
  | vec type args ih =>
    simp only [Term.isExpression, Term.areExpressions_eq, List.all_eq_true] at shape
    obtain ⟨⟨us, s₁⟩, ran⟩ := exists_run_mapM (fun t member => ih t member (shape t member)) s
    rw [Term.lower, lowerAll_eq_mapM]
    exact ⟨(.vec type us, s₁), run_bind_eq_ok_iff.mpr ⟨us, s₁, ran, rfl⟩⟩
  | call func args ih =>
    simp only [Term.isExpression, Term.areExpressions_eq, List.all_eq_true] at shape
    obtain ⟨⟨us, s₁⟩, ran⟩ := exists_run_mapM (fun t member => ih t member (shape t member)) s
    rw [Term.lower, lowerAll_eq_mapM]
    exact ⟨(.call func us, s₁), run_bind_eq_ok_iff.mpr ⟨us, s₁, ran, rfl⟩⟩
  | raw parts ih =>
    simp only [Term.isExpression, Term.areParts_eq, List.all_eq_true, Bool.or_eq_true] at shape
    have each : ∀ t ∈ parts, ∀ s, ∃ r, (lowerPart t).run s = .ok r := by
      intro t member s
      rcases shape t member with isText | isExpression
      · cases t with
        | text c => exact ⟨(.text c, s), rfl⟩
        | _ => cases isText
      · cases t with
        | text c => cases isExpression
        | _ => exact ih _ member isExpression s
    obtain ⟨⟨us, s₁⟩, ran⟩ := exists_run_mapM each s
    rw [Term.lower, lowerParts_eq_mapM]
    exact ⟨(.raw us, s₁), run_bind_eq_ok_iff.mpr ⟨us, s₁, ran, rfl⟩⟩
  | swizzle base components ih =>
    obtain ⟨⟨u, s₁⟩, ran⟩ := ih (by simpa using shape) s
    exact ⟨(.swizzle u components, s₁), run_bind_eq_ok_iff.mpr ⟨u, s₁, ran, rfl⟩⟩
  | shared key type init stem ih =>
    cases known : s.entries.lookup key with
    | some name => exact ⟨_, run_lower_shared_of_found type init stem known⟩
    | none =>
      obtain ⟨⟨u, s₁⟩, ran⟩ := ih (by simpa using shape) { s with stems := stem :: s.stems }
      exact ⟨(_, _), (run_lower_shared_of_new type init stem known).mpr ⟨u, s₁, ran, rfl, rfl⟩⟩
  | absent | text | define | commit => simp at shape

theorem exists_run_lowerStatements {statements : List Term}
    (shape : ∀ t ∈ statements, t.isStatement = true) :
    ∃ rest s, (Term.lowerStatements statements).run {} = .ok (rest, s) := by
  have each : ∀ t ∈ statements, ∀ s, ∃ r, (Term.lowerStatement t).run s = .ok r := by
    intro t member s
    have shape := shape t member
    cases t with
    | define name type init =>
      obtain ⟨⟨u, s₁⟩, ran⟩ := exists_run_lower init shape s
      exact ⟨(.define name type u, s₁), run_bind_eq_ok_iff.mpr ⟨u, s₁, ran, rfl⟩⟩
    | commit value =>
      obtain ⟨⟨u, s₁⟩, ran⟩ := exists_run_lower value shape s
      exact ⟨(.commit u, s₁), run_bind_eq_ok_iff.mpr ⟨u, s₁, ran, rfl⟩⟩
    | _ => cases shape
  obtain ⟨⟨rest, s⟩, ran⟩ := exists_run_mapM each {}
  rw [← lowerStatements_eq_mapM] at ran
  exact ⟨rest, s, ran⟩

theorem lowerProgram_of_run {statements rest : List Term} {s : Lowering}
    (ran : (Term.lowerStatements statements).run {} = .ok (rest, s)) :
    lowerProgram statements = .ok (s.made ++ rest, s.hits) :=
  Outcome.bind_eq_ok_iff.mpr ⟨(rest, s), ran, rfl⟩

theorem exists_lowerProgram {statements : List Term}
    (shape : ∀ t ∈ statements, t.isStatement = true) :
    ∃ lowered hits, lowerProgram statements = .ok (lowered, hits) := by
  obtain ⟨rest, s, ran⟩ := exists_run_lowerStatements shape
  exact ⟨s.made ++ rest, s.hits, lowerProgram_of_run ran⟩

end ShaderFlow.Lowering
