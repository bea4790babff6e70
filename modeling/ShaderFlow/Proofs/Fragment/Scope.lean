import Mathlib.Logic.Function.Basic
import ShaderFlow.Fragment
import ShaderFlow.Kind.Source
import ShaderFlow.Proofs.Program.Search
import ShaderFlow.Proofs.Term.Inlining

set_option autoImplicit false

/-
Fragments draw their definitions from one catalog, in which each name has one definition and each
definition refers to earlier ones only. So the catalog gives every name a meaning, and combining
fragments or naming their values does not change what they mean.
-/

namespace ShaderFlow

open Definition

namespace Term

/-- An expression as workers build them: over finite numbers, and sharing nothing but samples of the
video. -/
structure Regular (t : Term) : Prop where
  shape : t.isExpression = true
  finite : t.IsFinite
  samples : ∀ u ∈ t.allShared, ∃ dx dy, u = Kind.blurSample dx dy

@[simp] theorem regular_ref (n : String) : (ref n).Regular :=
  ⟨rfl, by simp [IsFinite], by simp⟩

@[simp] theorem regular_number (x : Binary64) : (number x).Regular ↔ x.isFinite = true :=
  ⟨fun regular => regular.finite x (by simp), fun finite => ⟨rfl, by simpa [IsFinite], by simp⟩⟩

@[simp] theorem regular_swizzle (t : Term) (cs : String) : (swizzle t cs).Regular ↔ t.Regular := by
  constructor <;> rintro ⟨shape, finite, samples⟩
  · exact ⟨by simpa using shape, by simpa [IsFinite] using finite, by simpa using samples⟩
  · exact ⟨by simpa using shape, by simpa [IsFinite] using finite, by simpa using samples⟩

/-- What holds of the parts of a term and of what they hold, holds of the term. -/
theorem regular_of_parts {t : Term} {parts : List Term} (shape : t.isExpression = true)
    (literals_eq : t.literals = parts.flatMap literals)
    (shared_eq : t.allShared = parts.flatMap allShared)
    (each : ∀ p ∈ parts, p.isText = true ∨ p.Regular) : t.Regular := by
  have held : ∀ p ∈ parts, p.IsFinite ∧ ∀ u ∈ p.allShared, ∃ dx dy, u = Kind.blurSample dx dy := by
    intro p member
    rcases each p member with written | regular
    · cases p <;> simp [isText] at written
      simp [IsFinite]
    · exact ⟨regular.finite, regular.samples⟩
  refine ⟨shape, ?_, ?_⟩
  · intro x member
    rw [literals_eq] at member
    obtain ⟨p, inside, found⟩ := List.mem_flatMap.mp member
    exact (held p inside).1 x found
  · intro u member
    rw [shared_eq] at member
    obtain ⟨p, inside, found⟩ := List.mem_flatMap.mp member
    exact (held p inside).2 u found

theorem regular_vec {type : VecType} {args : List Term} (each : ∀ t ∈ args, t.Regular) :
    (vec type args).Regular :=
  regular_of_parts (by simpa using fun t member => (each t member).shape) (by simp) (by simp)
    fun t member => .inr (each t member)

theorem regular_call {func : String} {args : List Term} (each : ∀ t ∈ args, t.Regular) :
    (call func args).Regular :=
  regular_of_parts (by simpa using fun t member => (each t member).shape) (by simp) (by simp)
    fun t member => .inr (each t member)

theorem regular_raw {parts : List Term} (each : ∀ p ∈ parts, p.isText = true ∨ p.Regular) :
    (raw parts).Regular :=
  regular_of_parts
    (by simpa using fun p member => (each p member).imp_right Regular.shape)
    (by simp) (by simp) each

theorem Regular.group {t : Term} (regular : t.Regular) : t.group.Regular := by
  cases t with
  | raw ps => exact regular_raw (by simp [isText, regular])
  | _ => exact regular

theorem names_group (t : Term) : t.group.names = t.names := by
  cases t <;> simp [Term.group]

end Term

namespace Definition

@[simp] theorem among_map_toTerm (ds : List Definition) : among (ds.map toTerm) = ds := by
  induction ds with
  | nil => rfl
  | cons d ds ih => exact congrArg (d :: ·) ih

/-- What the names of some definitions mean, where each is given its meaning in turn. -/
def environment (ds : List Definition) : String → Term :=
  ds.foldl (fun ρ d => Function.update ρ d.name (d.init.inlineWith ρ)) .ref

theorem environment_snoc (ds : List Definition) (d : Definition) :
    environment (ds ++ [d]) =
      Function.update (environment ds) d.name (d.init.inlineWith (environment ds)) := by
  simp [environment]

/-- Definitions of other names do not change what a name means. -/
theorem environment_append {ds more : List Definition} {n : String}
    (other : n ∉ more.map name) : environment (ds ++ more) n = environment ds n := by
  induction more using List.reverseRecOn with
  | nil => simp
  | append_singleton more d ih =>
    simp only [List.map_append, List.map_cons, List.map_nil, List.mem_append, List.mem_singleton,
      not_or] at other
    rw [← List.append_assoc, environment_snoc, Function.update_of_ne other.2, ih other.1]

/-- In the whole environment each name still means what its definition says. -/
theorem environment_eq {ds : List Definition} (nodup : (ds.map name).Nodup) (inOrder : InOrder ds)
    {d : Definition} (member : d ∈ ds) :
    environment ds d.name = d.init.inlineWith (environment ds) := by
  obtain ⟨front, back, rfl⟩ := List.append_of_mem member
  rw [List.map_append, List.map_cons] at nodup
  obtain ⟨_, backNodup, apart⟩ := List.nodup_append.mp nodup
  have here : environment (front ++ d :: back) d.name = d.init.inlineWith (environment front) := by
    rw [← List.singleton_append, ← List.append_assoc,
      environment_append (List.nodup_cons.mp backNodup).1, environment_snoc, Function.update_self]
  rw [here]
  apply Term.inlineWith_congr
  intro n refers
  have earlier : n ∈ front.map name := inOrder front d back rfl n refers
  refine (environment_append ?_).symm
  intro later
  exact apart n earlier n later rfl

/-- Definitions in order leave no choice: what makes each name mean its initializer is one on them.
-/
theorem InOrder.agree {ds : List Definition} {ρ ρ' : String → Term} (inOrder : InOrder ds)
    (left : ∀ d ∈ ds, ρ d.name = d.init.inlineWith ρ)
    (right : ∀ d ∈ ds, ρ' d.name = d.init.inlineWith ρ') : ∀ n ∈ ds.map name, ρ n = ρ' n := by
  induction ds using List.reverseRecOn with
  | nil => simp
  | append_singleton ds d ih =>
    have earlier := ih inOrder.of_append (fun e member => left e (List.mem_append_left _ member))
      fun e member => right e (List.mem_append_left _ member)
    intro n member
    rw [List.map_append, List.mem_append] at member
    rcases member with member | last
    · exact earlier n member
    · obtain rfl : n = d.name := by simpa using last
      rw [left d (by simp), right d (by simp)]
      exact Term.inlineWith_congr fun n refers => earlier n (inOrder.last_met n refers)

/-- A catalog of definitions: each name has one, which refers to earlier ones only. -/
structure Catalog (c : List Definition) : Prop where
  nodup : (c.map name).Nodup
  inOrder : InOrder c
  regular : ∀ d ∈ c, d.init.Regular

namespace Catalog

variable {c : List Definition}

theorem nil : Catalog [] := ⟨by simp, .nil, by simp⟩

theorem eq_of_name (catalog : Catalog c) {d e : Definition} (inD : d ∈ c) (inE : e ∈ c)
    (same : d.name = e.name) : d = e :=
  List.inj_on_of_nodup_map catalog.nodup inD inE same

theorem snoc {d : Definition} (catalog : Catalog c) (fresh : d.name ∉ c.map name)
    (regular : d.init.Regular) (bound : ∀ n ∈ d.init.names, n ∈ c.map name) :
    Catalog (c ++ [d]) where
  nodup := by
    rw [List.map_append]
    exact (List.perm_append_singleton _ _).nodup_iff.mpr
      (List.nodup_cons.mpr ⟨fresh, catalog.nodup⟩)
  inOrder := catalog.inOrder.snoc bound
  regular := by
    intro e member
    rcases List.mem_append.mp member with member | last
    · exact catalog.regular e member
    · rw [List.mem_singleton.mp last]
      exact regular

end Catalog

end Definition

namespace Fragment

theorem distinct_snoc (statements : List Term) (t : Term) :
    distinct (statements ++ [t]) =
      if (distinct statements).any (·.alike t) then distinct statements
      else distinct statements ++ [t] := by
  simp [distinct]

/-- Of definitions that agree on each name, one of each name stays, in order. -/
theorem distinct_definitions (ds : List Definition)
    (agree : ∀ d ∈ ds, ∀ e ∈ ds, d.name = e.name → d = e) :
    ∃ kept, distinct (ds.map toTerm) = kept.map toTerm ∧ (kept.map name).Nodup ∧
      (∀ d, d ∈ kept ↔ d ∈ ds) ∧ (InOrder ds → InOrder kept) := by
  induction ds using List.reverseRecOn with
  | nil => exact ⟨[], rfl, by simp, by simp, fun _ => .nil⟩
  | append_singleton ds d ih =>
    obtain ⟨kept, same, nodup, members, ordered⟩ := ih fun d inD e inE =>
      agree d (List.mem_append_left _ inD) e (List.mem_append_left _ inE)
    rw [List.map_append, List.map_cons, List.map_nil, distinct_snoc, same]
    split
    · rename_i again
      obtain ⟨t, inside, alike⟩ := List.any_eq_true.mp again
      obtain ⟨e, inKept, rfl⟩ := List.mem_map.mp inside
      have inDs : e ∈ ds := (members e).mp inKept
      have named : e.name = d.name := ((alike_iff e d).mp alike).1
      obtain rfl := agree e (List.mem_append_left _ inDs) d (by simp) named
      refine ⟨kept, rfl, nodup, fun f => ?_, fun inOrder => ordered inOrder.of_append⟩
      rw [members, List.mem_append, List.mem_singleton]
      exact ⟨.inl, fun member => member.elim (fun inside => inside) fun last => last ▸ inDs⟩
    · rename_i fresh
      have new : d.name ∉ kept.map name := by
        intro member
        obtain ⟨e, inKept, named⟩ := List.mem_map.mp member
        obtain rfl := agree e (List.mem_append_left _ ((members e).mp inKept)) d (by simp) named
        exact fresh (List.any_eq_true.mpr
          ⟨e.toTerm, List.mem_map.mpr ⟨e, inKept, rfl⟩, alike_refl e⟩)
      refine ⟨kept ++ [d], by simp, ?_, fun f => by simp [members], fun inOrder => ?_⟩
      · rw [List.map_append]
        exact (List.perm_append_singleton _ _).nodup_iff.mpr (List.nodup_cons.mpr ⟨new, nodup⟩)
      · refine (ordered inOrder.of_append).snoc fun n refers => ?_
        obtain ⟨e, inDs, rfl⟩ := List.mem_map.mp (inOrder.last_met n refers)
        exact List.mem_map.mpr ⟨e, (members e).mpr inDs, rfl⟩

/-- A fragment whose statements are definitions of a catalog, in order and with all they refer to,
and whose value refers to them. -/
structure Scoped (c : List Definition) (f : Fragment) : Prop where
  only : f.statements = (among f.statements).map toTerm
  nodup : ((among f.statements).map name).Nodup
  listed : among f.statements ⊆ c
  inOrder : InOrder (among f.statements)
  regular : f.value.Regular
  bound : ∀ n ∈ f.value.names, n ∈ (among f.statements).map name

namespace Scoped

variable {c : List Definition} {f : Fragment}

theorem of_definitions {ds : List Definition} {value : Term} (nodup : (ds.map name).Nodup)
    (listed : ds ⊆ c) (inOrder : InOrder ds) (regular : value.Regular)
    (bound : ∀ n ∈ value.names, n ∈ ds.map name) : Scoped c ⟨ds.map toTerm, value⟩ :=
  ⟨by simp, by simpa using nodup, by simpa using listed, by simpa using inOrder, regular,
    by simpa using bound⟩

theorem ofValue (c : List Definition) {value : Term} (regular : value.Regular)
    (unnamed : value.names = []) : Scoped c (.ofValue value) :=
  @of_definitions c [] value (by simp) (by simp) .nil regular (by simp [unnamed])

theorem mono {c' : List Definition} (scope : Scoped c f) (subset : c ⊆ c') : Scoped c' f :=
  { scope with listed := fun _ member => subset (scope.listed member) }

theorem withValue (scope : Scoped c f) {value : Term} (regular : value.Regular)
    (bound : ∀ n ∈ value.names, n ∈ f.value.names) : Scoped c (f.withValue value) :=
  { scope with
    regular := regular
    bound := fun n member => scope.bound n (bound n member) }

theorem names_subset (scope : Scoped c f) : ∀ n ∈ f.value.names, n ∈ c.map name := by
  intro n member
  obtain ⟨d, inside, named⟩ := List.mem_map.mp (scope.bound n member)
  exact List.mem_map.mpr ⟨d, scope.listed inside, named⟩

/-- Combining fragments over one catalog gives a fragment over it, if the new value refers to
nothing but what theirs refer to. -/
theorem combine (catalog : Catalog c) {fs : List Fragment} (each : ∀ f ∈ fs, Scoped c f)
    {value : Term} (regular : value.Regular)
    (bound : ∀ n ∈ value.names, ∃ f ∈ fs, n ∈ f.value.names) :
    Scoped c (Fragment.combine fs value) := by
  have whole : fs.flatMap statements = (fs.flatMap fun f => among f.statements).map toTerm := by
    rw [List.map_flatMap]
    exact List.flatMap_congr fun f member => (each f member).only
  have inside : (fs.flatMap fun f => among f.statements) ⊆ c := by
    intro d member
    obtain ⟨f, inFs, found⟩ := List.mem_flatMap.mp member
    exact (each f inFs).listed found
  have ordered : InOrder (fs.flatMap fun f => among f.statements) := by
    clear whole inside bound
    induction fs with
    | nil => exact .nil
    | cons f fs ih =>
      exact (each f (by simp)).inOrder.append (ih fun g member => each g (by simp [member]))
  obtain ⟨kept, same, nodup, members, keeps⟩ := distinct_definitions _
    fun d inD e inE => catalog.eq_of_name (inside inD) (inside inE)
  rw [Fragment.combine, whole, same]
  refine of_definitions nodup (fun d member => inside ((members d).mp member)) (keeps ordered)
    regular fun n member => ?_
  obtain ⟨f, inFs, refers⟩ := bound n member
  obtain ⟨d, found, named⟩ := List.mem_map.mp ((each f inFs).bound n refers)
  exact List.mem_map.mpr ⟨d, (members d).mpr (List.mem_flatMap.mpr ⟨f, inFs, found⟩), named⟩

end Scoped

theorem combineWith_nil (f g : Fragment) (value : Term) :
    f.combineWith g [] value = combine [f, g] value := by
  simp [combineWith, combine]

/-- A fragment over a catalog whose value means a term, up to grouping. -/
def Carries (c : List Definition) (f : Fragment) (meaning : Term) : Prop :=
  Scoped c f ∧ f.value.inlineWith (environment c) = meaning.ungroup

/-- A catalog grows by definitions whose names have a property. -/
def Grows (P : String → Prop) (c c' : List Definition) : Prop :=
  ∃ added, c' = c ++ added ∧ ∀ d ∈ added, P d.name

variable {c c' c'' : List Definition} {P Q : String → Prop}

theorem Grows.refl (P : String → Prop) (c : List Definition) : Grows P c c := ⟨[], by simp, by simp⟩

theorem Grows.trans (first : Grows P c c') (second : Grows P c' c'') : Grows P c c'' := by
  obtain ⟨added, rfl, each⟩ := first
  obtain ⟨more, rfl, later⟩ := second
  refine ⟨added ++ more, by simp, fun d member => ?_⟩
  exact (List.mem_append.mp member).elim (each d) (later d)

theorem Grows.mono (grows : Grows P c c') (imp : ∀ n, P n → Q n) : Grows Q c c' := by
  obtain ⟨added, same, each⟩ := grows
  exact ⟨added, same, fun d member => imp _ (each d member)⟩

theorem Grows.mem_names (grows : Grows P c c') {n : String} (member : n ∈ c'.map name) :
    n ∈ c.map name ∨ P n := by
  obtain ⟨added, rfl, each⟩ := grows
  rw [List.map_append, List.mem_append] at member
  rcases member with before | new
  · exact .inl before
  · obtain ⟨d, inside, rfl⟩ := List.mem_map.mp new
    exact .inr (each d inside)

/-- Growth of the catalog changes nothing for a fragment over it. -/
theorem Carries.grow {f : Fragment} {meaning : Term} (carries : Carries c f meaning)
    (catalog : Catalog c') (grows : Grows P c c') : Carries c' f meaning := by
  obtain ⟨scope, means⟩ := carries
  obtain ⟨added, rfl, -⟩ := grows
  refine ⟨scope.mono (List.subset_append_left _ _), ?_⟩
  rw [← means]
  apply Term.inlineWith_congr
  intro n member
  have known := scope.names_subset n member
  refine environment_append fun later => ?_
  have nodup := catalog.nodup
  rw [List.map_append] at nodup
  exact (List.nodup_append.mp nodup).2.2 n known n later rfl

/-- Naming a value by a new name keeps its meaning. -/
theorem Carries.bind {f : Fragment} {meaning : Term} (carries : Carries c f meaning)
    (catalog : Catalog c) {n : String} (fresh : n ∉ c.map name) (type : String) :
    ∃ c', Catalog c' ∧ Grows (· = n) c c' ∧ Carries c' (f.bind n type) meaning := by
  obtain ⟨scope, means⟩ := carries
  unfold Fragment.bind
  split
  · exact ⟨c, catalog, .refl _ c, scope, means⟩
  · have catalog' : Catalog (c ++ [⟨n, type, f.value⟩]) :=
      catalog.snoc fresh scope.regular scope.names_subset
    refine ⟨_, catalog', ⟨_, rfl, by simp⟩, ?_, ?_⟩
    · have unused : n ∉ (among f.statements).map name := by
        intro member
        obtain ⟨d, inside, named⟩ := List.mem_map.mp member
        exact fresh (List.mem_map.mpr ⟨d, scope.listed inside, named⟩)
      have statements : f.statements ++ [.define n type f.value] =
          (among f.statements ++ [(⟨n, type, f.value⟩ : Definition)]).map toTerm := by
        rw [List.map_append, ← scope.only]
        rfl
      rw [statements]
      refine Scoped.of_definitions ?_ ?_ (scope.inOrder.snoc scope.bound) (by simp) (by simp)
      · rw [List.map_append]
        exact (List.perm_append_singleton _ _).nodup_iff.mpr
          (List.nodup_cons.mpr ⟨unused, scope.nodup⟩)
      · intro d member
        rcases List.mem_append.mp member with member | last
        · exact List.mem_append_left _ (scope.listed member)
        · exact List.mem_append_right _ last
    · rw [← means]
      simp [Term.inlineWith, environment_snoc]

end Fragment

end ShaderFlow
