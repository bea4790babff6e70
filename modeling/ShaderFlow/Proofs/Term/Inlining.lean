import ShaderFlow.Proofs.Program.Replacement

set_option autoImplicit false

namespace ShaderFlow.Term

section Rebuild

mutual
/-- Builds a term anew from other leaves, and from what `joined` makes of the parts of raw text.
Shared variables are leaves. -/
def rebuild (leaf : Term → Term) (joined : List Term → Term) : Term → Term
  | vec type args => vec type (rebuildAll leaf joined args)
  | call func args => call func (rebuildAll leaf joined args)
  | swizzle t cs => swizzle (t.rebuild leaf joined) cs
  | raw ps => joined (rebuildAll leaf joined ps)
  | define name type init => define name type (init.rebuild leaf joined)
  | commit value => commit (value.rebuild leaf joined)
  | absent => leaf absent
  | text s => leaf (text s)
  | number x => leaf (number x)
  | ref name => leaf (ref name)
  | shared key type init stem => leaf (shared key type init stem)

def rebuildAll (leaf : Term → Term) (joined : List Term → Term) : List Term → List Term
  | [] => []
  | t :: ts => t.rebuild leaf joined :: rebuildAll leaf joined ts
end

@[simp] theorem rebuildAll_eq (leaf : Term → Term) (joined : List Term → Term) (ts : List Term) :
    rebuildAll leaf joined ts = ts.map (rebuild leaf joined) := by
  induction ts with
  | nil => rfl
  | cons t ts ih => rw [rebuildAll, List.map_cons, ih]

attribute [simp] rebuild

/-- The leaves of a term. -/
abbrev leaves : Term → List Term := gather (fun t => [t]) false

theorem gather_eq_leaves {α : Type} (f : Term → List α) (t : Term) :
    t.gather f false = t.leaves.flatMap f := by
  induction t using Term.induction with
  | vec _ _ ih | call _ _ ih | raw _ ih =>
    simp only [gather, gatherAll_eq, List.flatMap_assoc]
    exact List.flatMap_congr ih
  | swizzle _ _ ih | define _ _ _ ih | commit _ ih => simpa using ih
  | absent | text | number | ref | shared => simp

theorem mem_names_iff {t : Term} {n : String} : n ∈ t.names ↔ ref n ∈ t.leaves := by
  rw [names, gather_eq_leaves, List.mem_flatMap]
  constructor
  · rintro ⟨u, member, found⟩
    cases u <;> simp only [refName, List.mem_singleton, List.not_mem_nil] at found
    rwa [found]
  · exact fun member => ⟨ref n, member, by simp⟩

theorem mem_outerShared_iff {t : Term} {key : Key} {type stem : String} {init : Term} :
    shared key type init stem ∈ t.outerShared ↔ shared key type init stem ∈ t.leaves := by
  rw [outerShared, gather_eq_leaves, List.mem_flatMap]
  constructor
  · rintro ⟨u, member, found⟩
    cases u <;> simp only [sharedLeaf, List.mem_singleton, List.not_mem_nil] at found
    rwa [found]
  · exact fun member => ⟨_, member, by simp⟩

def isLeaf : Term → Bool
  | absent | text _ | number _ | ref _ | shared .. => true
  | _ => false

theorem isLeaf_of_mem_leaves {t u : Term} (member : u ∈ t.leaves) : u.isLeaf = true := by
  induction t using Term.induction with
  | vec _ _ ih | call _ _ ih | raw _ ih =>
    simp only [gather, gatherAll_eq, List.mem_flatMap] at member
    obtain ⟨t, inside, found⟩ := member
    exact ih t inside found
  | swizzle _ _ ih | define _ _ _ ih | commit _ ih => exact ih (by simpa using member)
  | absent | text | number | ref | shared =>
    obtain rfl : u = _ := by simpa using member
    rfl

/-- A leaf is a reference to a name of the term, one of its shared variables, or neither. -/
theorem leaf_cases {P : Term → Prop} {t : Term} (refs : ∀ n ∈ t.names, P (ref n))
    (sharing : ∀ key type init stem, shared key type init stem ∈ t.outerShared →
      P (shared key type init stem))
    (absent : P absent) (text : ∀ s, P (text s)) (number : ∀ x, P (number x)) :
    ∀ u ∈ t.leaves, P u := by
  intro u member
  have leaf := isLeaf_of_mem_leaves member
  cases u with
  | ref n => exact refs n (mem_names_iff.mpr member)
  | shared key type init stem => exact sharing key type init stem (mem_outerShared_iff.mpr member)
  | absent => exact absent
  | text s => exact text s
  | number x => exact number x
  | _ => cases leaf

theorem rebuild_congr {leaf leaf' : Term → Term} {joined : List Term → Term} {t : Term}
    (same : ∀ u ∈ t.leaves, leaf u = leaf' u) : t.rebuild leaf joined = t.rebuild leaf' joined := by
  have lists : ∀ ts : List Term,
      (∀ t ∈ ts, (∀ u ∈ t.leaves, leaf u = leaf' u) →
        t.rebuild leaf joined = t.rebuild leaf' joined) →
      (∀ u ∈ ts.flatMap leaves, leaf u = leaf' u) →
      ts.map (rebuild leaf joined) = ts.map (rebuild leaf' joined) := by
    intro ts each same
    apply List.map_congr_left
    exact fun t member => each t member fun u inside =>
      same u (List.mem_flatMap.mpr ⟨t, member, inside⟩)
  induction t using Term.induction with
  | vec _ args ih => simpa using lists args ih (by simpa using same)
  | call _ args ih => simpa using lists args ih (by simpa using same)
  | raw ps ih =>
    have parts := lists ps ih (by simpa using same)
    simp only [rebuild, rebuildAll_eq, parts]
  | swizzle _ _ ih | define _ _ _ ih | commit _ ih => simpa using ih (by simpa using same)
  | absent | text | number | ref | shared => exact same _ (by simp)

/-- Two passes over a term are one pass, if the first one leaves raw text as it is. -/
theorem rebuild_rebuild (leaf leaf' : Term → Term) (joined : List Term → Term) (t : Term) :
    (t.rebuild leaf raw).rebuild leaf' joined =
      t.rebuild (fun u => (leaf u).rebuild leaf' joined) joined := by
  induction t using Term.induction with
  | vec _ _ ih | call _ _ ih => simpa using ih
  | raw ps ih =>
    simp only [rebuild, rebuildAll_eq, List.map_map]
    congr 1
    exact List.map_congr_left ih
  | swizzle _ _ ih | define _ _ _ ih | commit _ ih => simpa using ih
  | absent | text | number | ref | shared => simp

theorem rebuild_id (t : Term) : t.rebuild id raw = t := by
  have lists : ∀ {ts : List Term}, (∀ t ∈ ts, t.rebuild id raw = t) →
      ts.map (rebuild id raw) = ts :=
    fun each => (List.map_congr_left each).trans (List.map_id _)
  induction t using Term.induction with
  | vec _ _ ih | call _ _ ih | raw _ ih => simp [lists ih]
  | swizzle _ _ ih | define _ _ _ ih | commit _ ih => simpa using ih
  | absent | text | number | ref | shared => rfl

theorem gather_rebuild {α : Type} (f : Term → List α) (leaf : Term → Term) (t : Term) :
    (t.rebuild leaf raw).gather f false = t.leaves.flatMap fun u => (leaf u).gather f false := by
  induction t using Term.induction with
  | vec _ _ ih | call _ _ ih | raw _ ih =>
    simp only [rebuild, rebuildAll_eq, gather, gatherAll_eq, List.flatMap_map, List.flatMap_assoc]
    exact List.flatMap_congr ih
  | swizzle _ _ ih | define _ _ _ ih | commit _ ih => simpa using ih
  | absent | text | number | ref | shared => simp

end Rebuild

/-- Raw text of some parts, where parentheses around one operand are left out. -/
def withoutParens : List Term → Term
  | [text "(", t, text ")"] => t
  | ps => raw ps

/-- A term without the parentheses that group operands. -/
def ungroup : Term → Term := rebuild id withoutParens

/-- A term with each reference replaced by what `σ` gives for its name. -/
def replaceRefs (σ : String → Term) : Term → Term := rebuild (fun
  | ref n => σ n
  | t => t) raw

/-- What a term means in an environment: references stand for what the environment gives, shared
variables for their initializers, and parentheses for nothing. -/
def inlineWith (ρ : String → Term) : Term → Term := rebuild (fun
  | ref n => ρ n
  | shared _ _ init _ => init.ungroup
  | t => t) withoutParens

section Equations

variable (ρ : String → Term)

@[simp] theorem ungroup_number (x : Binary64) : (number x).ungroup = number x := rfl

@[simp] theorem ungroup_text (s : String) : (text s).ungroup = text s := rfl

@[simp] theorem ungroup_vec (type : VecType) (args : List Term) :
    (vec type args).ungroup = vec type (args.map ungroup) := by simp [ungroup]

@[simp] theorem ungroup_call (func : String) (args : List Term) :
    (call func args).ungroup = call func (args.map ungroup) := by simp [ungroup]

@[simp] theorem ungroup_swizzle (t : Term) (cs : String) :
    (swizzle t cs).ungroup = swizzle t.ungroup cs := rfl

@[simp] theorem ungroup_raw (ps : List Term) :
    (raw ps).ungroup = withoutParens (ps.map ungroup) := by simp [ungroup]

@[simp] theorem inlineWith_number (x : Binary64) : (number x).inlineWith ρ = number x := rfl

@[simp] theorem inlineWith_text (s : String) : (text s).inlineWith ρ = text s := rfl

@[simp] theorem inlineWith_ref (n : String) : (ref n).inlineWith ρ = ρ n := rfl

@[simp] theorem inlineWith_shared (key : Key) (type : String) (init : Term) (stem : String) :
    (shared key type init stem).inlineWith ρ = init.ungroup := rfl

@[simp] theorem inlineWith_vec (type : VecType) (args : List Term) :
    (vec type args).inlineWith ρ = vec type (args.map (inlineWith ρ)) := by simp [inlineWith]

@[simp] theorem inlineWith_call (func : String) (args : List Term) :
    (call func args).inlineWith ρ = call func (args.map (inlineWith ρ)) := by simp [inlineWith]

@[simp] theorem inlineWith_swizzle (t : Term) (cs : String) :
    (swizzle t cs).inlineWith ρ = swizzle (t.inlineWith ρ) cs := rfl

@[simp] theorem inlineWith_raw (ps : List Term) :
    (raw ps).inlineWith ρ = withoutParens (ps.map (inlineWith ρ)) := by simp [inlineWith]

@[simp] theorem inlineWith_commit (t : Term) :
    (commit t).inlineWith ρ = commit (t.inlineWith ρ) := rfl

end Equations

theorem rebuild_group {leaf : Term → Term} (plain : ∀ s, leaf (text s) = text s) (t : Term) :
    t.group.rebuild leaf withoutParens = t.rebuild leaf withoutParens := by
  cases t <;> simp [group, plain, withoutParens]

@[simp] theorem ungroup_group (t : Term) : t.group.ungroup = t.ungroup := rebuild_group (by simp) t

@[simp] theorem inlineWith_group (ρ : String → Term) (t : Term) :
    t.group.inlineWith ρ = t.inlineWith ρ := rebuild_group (by simp) t

theorem inlineWith_congr {ρ ρ' : String → Term} {t : Term} (same : ∀ n ∈ t.names, ρ n = ρ' n) :
    t.inlineWith ρ = t.inlineWith ρ' :=
  rebuild_congr (leaf_cases same (by simp) rfl (by simp) (by simp))

/-- A term without references and shared variables means itself. -/
theorem inlineWith_eq_ungroup {ρ : String → Term} {t : Term} (unnamed : t.names = [])
    (unshared : t.outerShared = []) : t.inlineWith ρ = t.ungroup :=
  rebuild_congr (leaf_cases (by simp [unnamed]) (by simp [unshared]) rfl (by simp) (by simp))

/-- Replacing references by terms that mean the same keeps the meaning. -/
theorem inlineWith_replaceRefs {ρ σ : String → Term} {t : Term}
    (agrees : ∀ n ∈ t.names, (σ n).inlineWith ρ = ρ n) :
    (t.replaceRefs σ).inlineWith ρ = t.inlineWith ρ := by
  rw [replaceRefs, inlineWith, rebuild_rebuild]
  exact rebuild_congr (leaf_cases agrees (by simp) (by simp) (by simp) (by simp))

theorem replaceRefs_ref (t : Term) : t.replaceRefs ref = t := by
  have same : t.replaceRefs ref = t.rebuild id raw :=
    rebuild_congr (leaf_cases (by simp) (by simp) rfl (by simp) (by simp))
  rw [same, rebuild_id]

theorem replaceRefs_replaceRefs (σ σ' : String → Term) (t : Term) :
    (t.replaceRefs σ).replaceRefs σ' = t.replaceRefs fun n => (σ n).replaceRefs σ' := by
  rw [replaceRefs, replaceRefs, rebuild_rebuild]
  exact rebuild_congr (leaf_cases (fun _ _ => rfl) (by simp) (by simp) (by simp) (by simp))

theorem names_replaceRefs (σ : String → Term) (t : Term) :
    (t.replaceRefs σ).names = t.names.flatMap fun n => (σ n).names := by
  rw [replaceRefs, names, gather_rebuild, gather_eq_leaves refName t, List.flatMap_assoc]
  exact List.flatMap_congr (leaf_cases (by simp) (by simp) (by simp) (by simp) (by simp))

theorem outerShared_replaceRefs {σ : String → Term} {t : Term} (unshared : t.outerShared = [])
    (each : ∀ n ∈ t.names, (σ n).outerShared = []) : (t.replaceRefs σ).outerShared = [] := by
  rw [replaceRefs, outerShared, gather_rebuild, List.flatMap_eq_nil_iff]
  exact leaf_cases each (by simp [unshared]) (by simp) (by simp) (by simp)

/-- Each leaf has its replacement among the leaves of the lowered term. -/
theorem Replaces.exists_leaf {entries : List (Key × String)} {t u leaf : Term}
    (related : Replaces entries t u) (member : leaf ∈ t.leaves) :
    ∃ leaf' ∈ u.leaves, Replaces entries leaf leaf' := by
  have lists : ∀ {ts us : List Term}, List.Forall₂ (fun t u => ∃ _ : Replaces entries t u,
      leaf ∈ t.leaves → ∃ leaf' ∈ u.leaves, Replaces entries leaf leaf') ts us →
      leaf ∈ ts.flatMap leaves → ∃ leaf' ∈ us.flatMap leaves, Replaces entries leaf leaf' := by
    intro ts us inner member
    obtain ⟨t, inside, found⟩ := List.mem_flatMap.mp member
    obtain ⟨u, within, _, holds⟩ := exists_of_forall₂ inner.flip inside
    obtain ⟨leaf', there, replaced⟩ := holds found
    exact ⟨leaf', List.mem_flatMap.mpr ⟨u, within, there⟩, replaced⟩
  induction related using Replaces.induction with
  | vec type args args' _ ih => simpa using lists ih (by simpa using member)
  | call func args args' _ ih => simpa using lists ih (by simpa using member)
  | raw parts parts' _ ih => simpa using lists ih (by simpa using member)
  | swizzle components base base' _ ih => simpa using ih (by simpa using member)
  | define name type init init' _ ih => simpa using ih (by simpa using member)
  | commit value value' _ ih => simpa using ih (by simpa using member)
  | shared key type init stem name listed =>
    obtain rfl : leaf = .shared key type init stem := by simpa using member
    exact ⟨.ref name, by simp, .shared key type init stem name listed⟩
  | absent =>
    obtain rfl : leaf = .absent := by simpa using member
    exact ⟨_, member, .absent⟩
  | text s =>
    obtain rfl : leaf = .text s := by simpa using member
    exact ⟨_, member, .text s⟩
  | number x =>
    obtain rfl : leaf = .number x := by simpa using member
    exact ⟨_, member, .number x⟩
  | ref name =>
    obtain rfl : leaf = .ref name := by simpa using member
    exact ⟨_, member, .ref name⟩

/-- A lowered term is built anew as the term was, if the entered names are treated as the shared
variables. -/
theorem Replaces.rebuild_eq {entries : List (Key × String)} {leaf : Term → Term}
    {joined : List Term → Term} {t u : Term} (related : Replaces entries t u)
    (agrees : ∀ key type init stem, Term.shared key type init stem ∈ t.outerShared →
      ∀ name, (key, name) ∈ entries → leaf (.ref name) = leaf (.shared key type init stem)) :
    u.rebuild leaf joined = t.rebuild leaf joined := by
  have lists : ∀ {ts us : List Term}, List.Forall₂ (fun t u => ∃ _ : Replaces entries t u,
      (∀ key type init stem, Term.shared key type init stem ∈ t.outerShared →
        ∀ name, (key, name) ∈ entries → leaf (.ref name) = leaf (.shared key type init stem)) →
      u.rebuild leaf joined = t.rebuild leaf joined) ts us →
      (∀ key type init stem, Term.shared key type init stem ∈ ts.flatMap outerShared →
        ∀ name, (key, name) ∈ entries → leaf (.ref name) = leaf (.shared key type init stem)) →
      us.map (rebuild leaf joined) = ts.map (rebuild leaf joined) := by
    intro ts us inner agrees
    induction inner with
    | nil => rfl
    | cons here _ ih =>
      obtain ⟨_, same⟩ := here
      rw [List.map_cons, List.map_cons,
        same fun key type init stem member => agrees key type init stem (by simp [member]),
        ih fun key type init stem member => agrees key type init stem
          (List.mem_flatMap.mpr (by
            obtain ⟨t, inside, found⟩ := List.mem_flatMap.mp member
            exact ⟨t, List.mem_cons_of_mem _ inside, found⟩))]
  induction related using Replaces.induction with
  | vec type args args' _ ih => simpa using lists ih (by simpa using agrees)
  | call func args args' _ ih => simpa using lists ih (by simpa using agrees)
  | raw parts parts' _ ih =>
    have parts := lists ih (by simpa using agrees)
    simp only [rebuild, rebuildAll_eq, parts]
  | shared key type init stem name listed =>
    simpa using agrees key type init stem (by simp) name listed
  | swizzle components base base' _ ih => simpa using ih (by simpa using agrees)
  | define name type init init' _ ih => simpa using ih (by simpa using agrees)
  | commit value value' _ ih => simpa using ih (by simpa using agrees)
  | absent | text | number | ref => rfl

/-- A lowered term means what the term meant, if the entered names stand for the initializers. -/
theorem Replaces.inlineWith_eq {entries : List (Key × String)} {ρ : String → Term} {t u : Term}
    (related : Replaces entries t u)
    (agrees : ∀ key type init stem, Term.shared key type init stem ∈ t.outerShared →
      ∀ name, (key, name) ∈ entries → ρ name = init.ungroup) : u.inlineWith ρ = t.inlineWith ρ :=
  related.rebuild_eq agrees

end ShaderFlow.Term
