import ShaderFlow.Proofs.Program.Size
import ShaderFlow.Proofs.Program.Unfolding

set_option autoImplicit false

/-
Lowered statements hold no shared variables. If those of one key are the same, each key has one
definition, and unfolding the definitions gives the statements back with each shared variable, at
every depth, replaced by its initializer. In any case a key has a second definition only around the
first.
-/

namespace ShaderFlow

namespace Term

/-- The key of a shared variable. -/
def key? : Term → Option Key
  | shared key .. => some key
  | _ => none

/-- The names a term refers to, at any depth. -/
abbrev allNames : Term → List String := gather refName true

mutual
/-- The term with each shared variable, at every depth, replaced by its initializer. -/
def unshare : Term → Term
  | vec type args => vec type (unshareAll args)
  | call func args => call func (unshareAll args)
  | swizzle t cs => swizzle t.unshare cs
  | raw ps => raw (unshareAll ps)
  | shared _ _ init _ => init.unshare
  | define name type init => define name type init.unshare
  | commit value => commit value.unshare
  | absent => absent
  | text s => text s
  | number x => number x
  | ref name => ref name

def unshareAll : List Term → List Term
  | [] => []
  | t :: ts => t.unshare :: unshareAll ts
end

@[simp] theorem unshareAll_eq (ts : List Term) : unshareAll ts = ts.map unshare := by
  induction ts with
  | nil => rfl
  | cons t ts ih => rw [unshareAll, List.map_cons, ih]

attribute [simp] unshare

/-- What stands for a leaf when references are replaced and nothing is shared. -/
@[simp] def unsharedLeaf (σ : String → Term) : Term → Term
  | ref n => σ n
  | shared _ _ init _ => init.unshare
  | t => t

theorem rebuild_unsharedLeaf {σ : String → Term} {t : Term} (kept : ∀ n ∈ t.names, σ n = ref n) :
    t.rebuild (unsharedLeaf σ) raw = t.unshare := by
  have same : t.rebuild (unsharedLeaf σ) raw = t.rebuild (unsharedLeaf ref) raw :=
    rebuild_congr (leaf_cases kept (by simp) rfl (by simp) (by simp))
  rw [same]
  clear same kept
  induction t using Term.induction with
  | vec _ _ ih | call _ _ ih | raw _ ih => simpa using ih
  | swizzle _ _ ih | define _ _ _ ih | commit _ ih => simpa using ih
  | absent | text | number | ref | shared => rfl

/-- A lowered term, with the entered names replaced by what they share, has nothing shared. -/
theorem Replaces.replaceRefs_eq {entries : List (Key × String)} {σ : String → Term} {t u : Term}
    (related : Replaces entries t u) (kept : ∀ n ∈ t.names, σ n = .ref n)
    (agrees : ∀ key type init stem, Term.shared key type init stem ∈ t.outerShared →
      ∀ name, (key, name) ∈ entries → σ name = init.unshare) : u.replaceRefs σ = t.unshare := by
  have plain : u.outerShared = [] := related.unshared false
  calc
    u.replaceRefs σ = u.rebuild (unsharedLeaf σ) .raw :=
      rebuild_congr (leaf_cases (by simp) (by simp [plain]) rfl (by simp) (by simp))
    _ = t.rebuild (unsharedLeaf σ) .raw := related.rebuild_eq agrees
    _ = t.unshare := rebuild_unsharedLeaf kept

/-- The keys of the outermost shared variables are entered. -/
theorem Replaces.key_mem {entries : List (Key × String)} {t u : Term}
    (related : Replaces entries t u) {key : Key} {type : String} {init : Term} {stem : String}
    (member : Term.shared key type init stem ∈ t.outerShared) : key ∈ entries.map Prod.fst := by
  obtain ⟨leaf, -, replaced⟩ := related.exists_leaf (mem_outerShared_iff.mp member)
  cases replaced with
  | shared _ _ _ _ name listed => exact List.mem_map.mpr ⟨_, listed, rfl⟩

end Term

namespace Lowering

open Definition

/-- Shared variables of one key are the same. -/
def Coherent (statements : List Term) : Prop :=
  ∀ t ∈ statements.flatMap Term.allShared, ∀ u ∈ statements.flatMap Term.allShared,
    t.key? = u.key? → t = u

theorem flatMap_gather_init_subset {α : Type} {f : Term → List α} {statements : List Term}
    {key : Key} {type : String} {init : Term} {stem : String}
    (member : .shared key type init stem ∈ statements.flatMap Term.allShared) :
    init.gather f true ⊆ statements.flatMap (Term.gather f true) := by
  obtain ⟨t, inside, found⟩ := List.mem_flatMap.mp member
  intro a held
  exact List.mem_flatMap.mpr ⟨t, inside, Term.gather_init_subset found held⟩

/-- No shared variable has one of its key within it. -/
def Unnested (statements : List Term) : Prop :=
  ∀ key type init stem, .shared key type init stem ∈ statements.flatMap Term.allShared →
    ∀ u ∈ init.allShared, u.key? ≠ some key

theorem Coherent.unnested {statements : List Term} (coherent : Coherent statements) :
    Unnested statements := by
  intro key type init stem member u within same
  have inside : u ∈ statements.flatMap Term.allShared := flatMap_gather_init_subset member within
  obtain rfl := coherent _ member _ inside same.symm
  exact Term.shared_not_mem_init key type init stem within

namespace Lowered

variable {statements lowered rest : List Term} {issues : List Issue}

/-- A definition is for every shared variable of its key. -/
theorem init_eq (lowers : Lowered statements lowered issues rest) (coherent : Coherent statements)
    {i : Issue} (member : i ∈ issues) {type : String} {init : Term} {stem : String}
    (found : .shared i.key type init stem ∈ statements.flatMap Term.allShared) : i.init = init := by
  have same : i.origin = .shared i.key type init stem :=
    coherent _ (lowers.origin i member) _ found rfl
  exact (Term.shared.inj same).2.2.1

theorem keys_nodup_iff (lowers : Lowered statements lowered issues rest) :
    (issues.map Issue.key).Nodup ↔
      ∀ i ∈ issues, ∀ j ∈ issues, i.key = j.key → i.origin ∉ j.init.allShared := by
  constructor
  · intro nodup i inside j inside' same
    obtain rfl := List.inj_on_of_nodup_map nodup inside inside' same
    exact Term.shared_not_mem_init _ _ _ _
  · intro apart
    apply List.pairwise_map.mpr
    apply lowers.nested.imp_of_mem
    intro i j inside inside' nested same
    exact apart i inside j inside' same (nested same)

theorem keys_nodup (lowers : Lowered statements lowered issues rest)
    (unnested : Unnested statements) : (issues.map Issue.key).Nodup := by
  apply lowers.keys_nodup_iff.mpr
  intro i inside j inside' same within
  apply unnested _ _ _ _ (lowers.origin j inside') _ within
  exact congrArg some same

/-- A definition that was made holds its initializer with what came before it shared. -/
theorem replaces_of_split (lowers : Lowered statements lowered issues rest)
    {front back : List Issue} {i : Issue} (split : issues = front ++ i :: back) :
    Term.Replaces (front.map Issue.entry).reverse i.init i.lowered := by
  have inOrder := lowers.inOrder
  rw [split, Issue.inOrder_append] at inOrder
  simpa using inOrder.2.1

theorem key_mem_of_replaces {t u : Term}
    (related : Term.Replaces (issues.map Issue.entry).reverse t u) {key : Key} {type : String}
    {init : Term} {stem : String} (member : .shared key type init stem ∈ t.outerShared) :
    key ∈ issues.map Issue.key := by
  simpa [Issue.entry, Function.comp_def] using related.key_mem member

/-- If the outermost shared variables of a term have definitions, all within it have. -/
theorem key_mem_of_outer (lowers : Lowered statements lowered issues rest)
    (coherent : Coherent statements) {t : Term}
    (within : t.allShared ⊆ statements.flatMap Term.allShared)
    (outer : ∀ key type init stem, .shared key type init stem ∈ t.outerShared →
      key ∈ issues.map Issue.key) {key : Key} {type : String} {init : Term} {stem : String}
    (member : .shared key type init stem ∈ t.allShared) : key ∈ issues.map Issue.key := by
  induction t using Term.induction with
  | vec _ args ih | call _ args ih | raw args ih =>
    simp only [Term.gather, Term.gatherAll_eq] at within outer member
    obtain ⟨t, inside, found⟩ := List.mem_flatMap.mp member
    refine ih t inside ?_ ?_ found
    · exact fun u held => within (List.mem_flatMap.mpr ⟨t, inside, held⟩)
    · exact fun key type init stem held =>
        outer key type init stem (List.mem_flatMap.mpr ⟨t, inside, held⟩)
  | swizzle _ _ ih | define _ _ _ ih | commit _ ih =>
    exact ih (by simpa using within) (by simpa using outer) (by simpa using member)
  | shared key' type' init' stem' ih =>
    obtain ⟨i, inside, rfl⟩ := List.mem_map.mp (outer key' type' init' stem' (by simp))
    simp only [Term.gather, Term.sharedLeaf, if_true, List.mem_append, List.mem_singleton] at member
    rcases member with same | member
    · cases same
      exact List.mem_map_of_mem inside
    · -- The definition is for this very variable, so its initializer was lowered too.
      have here := within (by simp : Term.shared i.key type' init' stem' ∈ _)
      obtain rfl := lowers.init_eq coherent inside here
      apply ih (fun u held => within (by simp [held])) _ member
      exact fun key type init stem held => key_mem_of_replaces (lowers.replaces inside) held
  | absent | text | number | ref => simp at member

theorem key_mem_iff (lowers : Lowered statements lowered issues rest)
    (coherent : Coherent statements) (key : Key) : key ∈ issues.map Issue.key ↔
      key ∈ (statements.flatMap Term.allShared).filterMap Term.key? := by
  rw [List.mem_filterMap]
  constructor
  · intro member
    obtain ⟨i, inside, rfl⟩ := List.mem_map.mp member
    exact ⟨i.origin, lowers.origin i inside, rfl⟩
  · rintro ⟨u, member, named⟩
    obtain ⟨t, inside, found⟩ := List.mem_flatMap.mp member
    cases u with
    | shared key' type init stem =>
      cases named
      obtain ⟨u, _, related⟩ := exists_of_forall₂ lowers.replaced.flip inside
      refine lowers.key_mem_of_outer coherent ?_ ?_ found
      · exact fun v held => List.mem_flatMap.mpr ⟨t, inside, held⟩
      · exact fun key type init stem held => key_mem_of_replaces related held
    | _ => cases named

/-- After as many rounds as there are definitions that a term refers to, nothing is shared. Each
round leads from a definition to those before it. -/
theorem unfold_iterate_eq_unshare (lowers : Lowered statements lowered issues rest)
    (coherent : Coherent statements)
    (apart : ∀ i ∈ issues, i.name ∉ statements.flatMap Term.allNames) {front back : List Issue}
    (split : issues = front ++ back) {t u : Term}
    (within : t.allShared ⊆ statements.flatMap Term.allShared)
    (refers : t.allNames ⊆ statements.flatMap Term.allNames)
    (related : Term.Replaces (front.map Issue.entry).reverse t u) {rounds : Nat}
    (enough : front.length ≤ rounds) :
    ((unfold (issues.map Issue.made))^[rounds]) u = t.unshare := by
  have nodup : ((issues.map Issue.made).map name).Nodup := map_made_name issues ▸ lowers.distinct
  induction length : front.length using Nat.strongRecOn generalizing front back t u rounds with
  | ind count ih =>
    rw [unfold_iterate_eq]
    apply related.replaceRefs_eq
    · intro n member
      apply unfold_iterate_ref
      rw [map_made_name]
      intro made
      obtain ⟨i, inside, rfl⟩ := List.mem_map.mp made
      exact apart i inside (refers (Term.gather_subset_deep _ _ member))
    · intro key type init stem member n listed
      have here := within (Term.gather_subset_deep _ _ member)
      rw [List.mem_reverse] at listed
      obtain ⟨j, inside, same⟩ := List.mem_map.mp listed
      cases same
      have issued : j ∈ issues := by rw [split]; exact List.mem_append_left _ inside
      obtain rfl := lowers.init_eq coherent issued here
      obtain ⟨front', back', rfl⟩ := List.append_of_mem inside
      rw [List.append_assoc, List.cons_append] at split
      rw [List.length_append, List.length_cons] at enough length
      obtain ⟨rounds, rfl⟩ : ∃ fewer, rounds = fewer + 1 := ⟨rounds - 1, by omega⟩
      have step := unfold_iterate_succ_ref nodup (List.mem_map_of_mem issued) rounds
      apply step.trans
      apply ih front'.length (by omega) split
      · exact flatMap_gather_init_subset (lowers.origin j issued)
      · exact flatMap_gather_init_subset (lowers.origin j issued)
      · exact lowers.replaces_of_split split
      · omega
      · rfl

theorem map_unfold_iterate (lowers : Lowered statements lowered issues rest)
    (coherent : Coherent statements)
    (apart : ∀ i ∈ issues, i.name ∉ statements.flatMap Term.allNames) {rounds : Nat}
    (enough : issues.length ≤ rounds) :
    rest.map ((unfold (issues.map Issue.made))^[rounds]) = statements.map Term.unshare := by
  have each : List.Forall₂ (fun t u => t ∈ statements ∧
      Term.Replaces (issues.map Issue.entry).reverse t u) statements rest :=
    (List.forall₂_and_left _ _).mpr ⟨fun t inside => inside, lowers.replaced⟩
  have same : List.Forall₂ (fun a b => a = b)
      (rest.map ((unfold (issues.map Issue.made))^[rounds])) (statements.map Term.unshare) := by
    rw [List.forall₂_map_left_iff, List.forall₂_map_right_iff]
    apply each.flip.imp
    rintro u t ⟨inside, related⟩
    apply lowers.unfold_iterate_eq_unshare coherent apart
      (List.append_nil _).symm ?_ ?_ related enough
    · exact fun v held => List.mem_flatMap.mpr ⟨t, inside, held⟩
    · exact fun n held => List.mem_flatMap.mpr ⟨t, inside, held⟩
  rwa [List.forall₂_eq_eq_eq] at same

end Lowered

/-- How `made` and `rest` share what is shared in `statements`: one definition for each key, and a
reference to it in place of each shared variable of the key. -/
structure Sharing (statements : List Term) (keys : List Key) (made : List Definition)
    (rest : List Term) : Prop where
  unshared : ∀ t ∈ made.map toTerm ++ rest, t.allShared = []
  nodup : keys.Nodup
  occurring : ∀ key, key ∈ keys ↔ key ∈ (statements.flatMap Term.allShared).filterMap Term.key?
  defined : List.Forall₂ (fun key d => ∃ init stem,
    .shared key d.type init stem ∈ statements.flatMap Term.allShared ∧
      Term.Replaces (keys.zip (made.map name)) init d.init) keys made
  replaced : List.Forall₂ (Term.Replaces (keys.zip (made.map name))) statements rest
  distinct : (made.map name).Nodup
  inOrder : ∀ front d back, made = front ++ d :: back → ∀ n ∈ d.init.names,
    n ∈ front.map name ∨ n ∈ statements.flatMap Term.allNames

namespace Lowered

variable {statements lowered rest : List Term} {issues : List Issue}

theorem lowered_eq (lowers : Lowered statements lowered issues rest) :
    lowered = (issues.map Issue.made).map toTerm ++ rest := by
  rw [lowers.split, List.map_map]
  rfl

theorem sharing (lowers : Lowered statements lowered issues rest) (coherent : Coherent statements) :
    Sharing statements (issues.map Issue.key) (issues.map Issue.made) rest := by
  have entries : (issues.map Issue.entry).reverse ⊆
      (issues.map Issue.key).zip ((issues.map Issue.made).map name) := by
    rw [map_made_name, List.zip_map']
    exact List.reverse_subset.mpr (List.Subset.refl _)
  refine ⟨?_, lowers.keys_nodup coherent.unnested, lowers.key_mem_iff coherent, ?_, ?_, ?_, ?_⟩
  · rw [← lowers.lowered_eq]
    exact lowers.unshared true
  · rw [List.forall₂_map_left_iff, List.forall₂_map_right_iff, List.forall₂_same]
    intro i inside
    refine ⟨i.init, i.stem, lowers.origin i inside, ?_⟩
    exact (lowers.replaces inside).mono entries
  · exact lowers.replaced.imp fun t u related => related.mono entries
  · rw [map_made_name]
    exact lowers.distinct
  · intro front d back split n member
    obtain ⟨front, last, rfl, rfl, tail⟩ := List.map_eq_append_iff.mp split
    obtain ⟨i, back, rfl, rfl, rfl⟩ := List.map_eq_cons_iff.mp tail
    rcases (lowers.replaces_of_split rfl).names_subset member with given | ⟨key, listed⟩
    · exact .inr (flatMap_gather_init_subset (lowers.origin i (by simp))
        (Term.gather_subset_deep _ _ given))
    · obtain ⟨j, inside, same⟩ := List.mem_map.mp (List.mem_reverse.mp listed)
      cases same
      exact .inl (List.mem_map.mpr ⟨j.made, List.mem_map_of_mem inside, rfl⟩)

end Lowered

/-- Well-formed statements in which shared variables of one key are the same can be lowered: each
key at any depth has one definition, and nothing is shared any more. If no name that they refer to
is that of a definition, unfolding the definitions gives them back with each shared variable
replaced by its initializer. -/
theorem lowerProgram_shares {statements : List Term}
    (shape : ∀ t ∈ statements, t.isStatement = true) (coherent : Coherent statements) :
    ∃ keys made rest hits, lowerProgram statements = .ok (made.map toTerm ++ rest, hits) ∧
      Sharing statements keys made rest ∧
      ((∀ d ∈ made, d.name ∉ statements.flatMap Term.allNames) →
        ∀ rounds, made.length ≤ rounds →
          rest.map ((unfold made)^[rounds]) = statements.map Term.unshare) ∧
      ∀ target value key,
        (Fragment.generate target ⟨statements, value⟩).outcome ≠ .error (.unlowered key) := by
  obtain ⟨lowered, hits, ran⟩ := exists_lowerProgram shape
  obtain ⟨issues, rest, lowers⟩ := lowered_of_lowerProgram ran
  refine ⟨issues.map Issue.key, issues.map Issue.made, rest, hits, ?_,
    lowers.sharing coherent, ?_, ?_⟩
  · rw [ran, lowers.lowered_eq]
  · intro apart rounds enough
    rw [List.length_map] at enough
    apply lowers.map_unfold_iterate coherent _ enough
    exact fun i inside => apart i.made (List.mem_map_of_mem inside)
  · intro target value key
    exact Fragment.generate_ne_unlowered shape target key

/-- The middle of a picture. -/
def sharedPlace : Term := .shared (.text "place") "vec2" (.call "centre" [.ref "size"]) "at"

/-- A sample taken there. -/
def sharedTexel : Term :=
  .shared (.tuple [.text "texel", .number 0]) "vec4" (.call "texture2D" [sharedPlace]) "sample"

/-- The sample is met again, and so is its place. -/
def layered : List Term :=
  [.define "size" "vec2" (.call "extent" []),
    .define "first" "vec4" (.call "mix" [sharedTexel, .call "texture2D" [sharedPlace]]),
    .commit (.call "mix" [.ref "first", sharedTexel])]

theorem lowerProgram_shares_layered :
    (∀ t ∈ layered, t.isStatement = true) ∧ Coherent layered ∧
      ∃ keys made rest, lowerProgram layered = .ok (made.map toTerm ++ rest, 2) ∧
        Sharing layered keys made rest ∧ made.map name = ["at_0", "sample_0"] ∧
        (∀ d ∈ made, d.name ∉ layered.flatMap Term.allNames) ∧
        rest.map ((unfold made)^[2]) = layered.map Term.unshare := by
  have shape : ∀ t ∈ layered, t.isStatement = true := by decide
  have coherent : Coherent layered := by
    have two : ∀ t ∈ layered.flatMap Term.allShared, t = sharedPlace ∨ t = sharedTexel := by
      simp [layered, sharedPlace, sharedTexel]
    have different : sharedPlace.key? ≠ sharedTexel.key? := by decide
    intro t member u member' same
    rcases two t member with rfl | rfl
    · rcases two u member' with rfl | rfl
      · rfl
      · exact absurd same different
    · rcases two u member' with rfl | rfl
      · exact absurd same.symm different
      · rfl
  have computed : lowerProgram layered = .ok (
      [⟨"at_0", "vec2", .call "centre" [.ref "size"]⟩,
        ⟨"sample_0", "vec4", .call "texture2D" [.ref "at_0"]⟩].map toTerm ++
      [.define "size" "vec2" (.call "extent" []),
        .define "first" "vec4" (.call "mix" [.ref "sample_0", .call "texture2D" [.ref "at_0"]]),
        .commit (.call "mix" [.ref "first", .ref "sample_0"])], 2) := by rfl
  obtain ⟨keys, made, rest, hits, ran, sharing, back, -⟩ := lowerProgram_shares shape coherent
  obtain ⟨lowered, rfl⟩ := Prod.mk.inj (Except.ok.inj (ran.symm.trans computed))
  obtain ⟨issued, -⟩ := List.append_inj' lowered sharing.replaced.length_eq.symm
  have definitions := List.map_injective_iff.mpr toTerm_injective issued
  have apart : ∀ d ∈ made, d.name ∉ layered.flatMap Term.allNames := by
    rw [definitions]
    decide
  refine ⟨shape, coherent, keys, made, rest, ran, sharing, by rw [definitions]; rfl, apart, ?_⟩
  exact back apart 2 (by simp [definitions])

/-- A run makes definitions for shared variables that it meets. Of two for one key the earlier one
is for a variable within the later one's, so each key has one exactly when there is no such pair. -/
theorem keys_nodup_iff_apart {statements : List Term}
    (shape : ∀ t ∈ statements, t.isStatement = true) :
    ∃ (rest : List Term) (s : Lowering) (issues : List Issue),
      (Term.lowerStatements statements).run {} = .ok (rest, s) ∧
      lowerProgram statements = .ok (s.made ++ rest, s.hits) ∧
      s.made = issues.map Issue.definition ∧ s.entries = (issues.map Issue.entry).reverse ∧
      (∀ i ∈ issues, i.origin ∈ statements.flatMap Term.allShared) ∧
      issues.Pairwise Issue.Nested ∧
      ((s.entries.map Prod.fst).Nodup ↔
        ∀ i ∈ issues, ∀ j ∈ issues, i.key = j.key → i.origin ∉ j.init.allShared) ∧
      (Unnested statements → (s.entries.map Prod.fst).Nodup) := by
  obtain ⟨rest, s, ran⟩ := exists_run_lowerStatements shape
  obtain ⟨issues, entries, made, lowers⟩ := lowered_of_run ran
  have keys : (s.entries.map Prod.fst).Nodup ↔ (issues.map Issue.key).Nodup := by
    rw [entries, List.map_reverse, List.nodup_reverse, List.map_map]
    rfl
  refine ⟨rest, s, issues, ran, lowerProgram_of_run ran, made, entries, lowers.origin,
    lowers.nested, ?_, ?_⟩
  · rw [keys]
    exact lowers.keys_nodup_iff
  · rw [keys]
    exact lowers.keys_nodup

/-- A shared variable whose initializer has another one of its key. -/
def doubled : List Term :=
  [.commit (.shared (.text "k") "float"
    (.raw [.shared (.text "k") "float" (.number (.tenths 10)) "sample", .text " * 2.0"]) "sample")]

/-- The outer variable is entered after its initializer is lowered, so the inner one is not found
and has a definition of its own. -/
theorem run_doubled :
    (Term.lowerStatements doubled).run {} = .ok ([.commit (.ref "sample_0")],
      { stems := ["sample", "sample"]
        entries := [(.text "k", "sample_0"), (.text "k", "sample_1")]
        hits := 0
        made := [.define "sample_1" "float" (.number (.tenths 10)),
          .define "sample_0" "float" (.raw [.ref "sample_1", .text " * 2.0"])] }) := by
  rfl

theorem keys_nodup_iff_apart_doubled :
    (∀ t ∈ doubled, t.isStatement = true) ∧
      ∃ (s : Lowering) (issues : List Issue),
        lowerProgram doubled = .ok (s.made ++ [.commit (.ref "sample_0")], 0) ∧
        s.made = issues.map Issue.definition ∧ s.entries = (issues.map Issue.entry).reverse ∧
        s.entries = [(.text "k", "sample_0"), (.text "k", "sample_1")] ∧
        ∃ i ∈ issues, ∃ j ∈ issues, i.key = j.key ∧ i.origin ∈ j.init.allShared := by
  have shape : ∀ t ∈ doubled, t.isStatement = true := by decide
  obtain ⟨rest, s, issues, ran, program, made, entries, -, -, once, -⟩ := keys_nodup_iff_apart shape
  obtain ⟨rfl, rfl⟩ := Prod.mk.inj (Except.ok.inj (run_doubled.symm.trans ran))
  refine ⟨shape, _, issues, program, made, entries, rfl, ?_⟩
  by_contra none
  have nodup := once.mpr fun i inside j inside' same within =>
    none ⟨i, inside, j, inside', same, within⟩
  simp at nodup

end Lowering

end ShaderFlow
