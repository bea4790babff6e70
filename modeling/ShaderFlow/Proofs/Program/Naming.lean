import ShaderFlow.Proofs.Program.Lowering
import ShaderFlow.Proofs.Term.Traversal

set_option autoImplicit false

/-
The name that is given for a stem ends in the number of earlier requests for the stem. Only the
number stands behind the last underscore, so a name tells its stem and its request, and no name is
given twice, even where one stem starts with another or looks like a name itself. Lowering asks for
names in source order.
-/

namespace ShaderFlow.Lowering

variable {α : Type} [BEq α] {label : α → String}

/-- Whether a name was given when the stems in `used` were asked for. -/
def IsGiven (label : α → String) (used : List α) (name : String) : Prop :=
  ∃ stem index, index < used.count stem ∧ name = issuedName (label stem) index

theorem IsGiven.cons {used : List α} {name : String} (given : IsGiven label used name) (stem : α) :
    IsGiven label (stem :: used) name := by
  obtain ⟨other, index, below, rfl⟩ := given
  exact ⟨other, index, Nat.lt_of_lt_of_le below List.count_le_count_cons, rfl⟩

theorem run_allocateAll_cons (stem : α) (rest used : List α) :
    ((allocateAll label (stem :: rest)).run used).1 =
      ((allocate label stem).run used).1 :: ((allocateAll label rest).run (stem :: used)).1 := rfl

/-- One request gets a name that was not given before and counts as given afterwards. Stems of one
label have to be the same for this. -/
theorem allocate_gives_new [LawfulBEq α] (apart : Function.Injective label) (stem : α)
    (used : List α) :
    ¬ IsGiven label used ((allocate label stem).run used).1 ∧
      IsGiven label (stem :: used) ((allocate label stem).run used).1 := by
  refine ⟨?_, stem, used.count stem, by simp, rfl⟩
  rintro ⟨other, index, below, same⟩
  obtain ⟨labels, rfl⟩ : label stem = label other ∧ used.count stem = index := issuedName_inj same
  rw [apart labels] at below
  exact Nat.lt_irrefl _ below

/-- The names that a run gives are new, and there is no repetition among them. -/
theorem nodup_allocateAll [LawfulBEq α] (apart : Function.Injective label) (stems used : List α) :
    ((allocateAll label stems).run used).1.Nodup ∧
      ∀ name ∈ ((allocateAll label stems).run used).1, ¬ IsGiven label used name := by
  induction stems generalizing used with
  | nil => exact ⟨.nil, List.forall_mem_nil _⟩
  | cons stem rest ih =>
    obtain ⟨new, given⟩ := allocate_gives_new apart stem used
    obtain ⟨distinct, later⟩ := ih (stem :: used)
    rw [run_allocateAll_cons]
    refine ⟨List.nodup_cons.mpr ⟨fun again => later _ again given, distinct⟩, fun name member => ?_⟩
    rcases List.mem_cons.mp member with rfl | member
    · exact new
    · exact fun before => later name member (before.cons stem)

/-- The names of a run, by the requests before each of them. -/
theorem allocateAll_eq_mapIdx (stems used : List α) :
    ((allocateAll label stems).run used).1 = stems.mapIdx fun k stem =>
      issuedName (label stem) (used.count stem + (stems.take k).count stem) := by
  induction stems generalizing used with
  | nil => rfl
  | cons stem rest ih =>
    have counts : ∀ other k, (stem :: used).count other + (rest.take k).count other =
        used.count other + ((stem :: rest).take (k + 1)).count other := by
      intro other k
      rw [List.take_succ_cons, List.count_cons, List.count_cons]
      omega
    rw [run_allocateAll_cons, List.mapIdx_cons, ih]
    simp only [counts]
    rfl

/-- A lowering reserves the names that its stems are given, and changes nothing else. -/
theorem run_mapM_reserve (stems : List String) (s : Lowering) :
    (stems.mapM reserve).run s =
      .ok (((allocateAll id stems).run s.stems).1,
        { s with stems := stems.reverse ++ s.stems }) := by
  induction stems generalizing s with
  | nil => rfl
  | cons stem rest ih =>
    have there := ih { s with stems := stem :: s.stems }
    rw [List.mapM_cons, run_allocateAll_cons, List.reverse_cons, List.append_assoc]
    exact run_bind_eq_ok_iff.mpr ⟨_, _, rfl, run_bind_eq_ok_iff.mpr ⟨_, _, there, rfl⟩⟩

/-- Whatever stems are asked for, all names are different. Each is its stem, an underscore and the
number of requests for the stem before it, and it is what a lowering reserves. -/
theorem allocateAll_gives_distinct_names (stems : List String) :
    ((allocateAll id stems).run []).1.Nodup ∧
      ((allocateAll id stems).run []).1 =
        stems.mapIdx (fun k stem => s!"{stem}_{(stems.take k).count stem}") ∧
      (stems.mapM reserve).run {} =
        .ok (((allocateAll id stems).run []).1, { stems := stems.reverse }) := by
  refine ⟨(nodup_allocateAll Function.injective_id stems []).1, ?_, ?_⟩
  · rw [allocateAll_eq_mapIdx]
    simp only [List.count_nil, Nat.zero_add]
    rfl
  · rw [run_mapM_reserve, List.append_nil]

example :
    ((allocateAll id ["a", "a_0", "a", "a_"]).run []).1 = ["a_0", "a_0_0", "a_1", "a__0"] := by
  decide

theorem mapSharedAll_lower {ts : List Term} (each : ∀ t ∈ ts, t.mapShared Term.lower = t.lower) :
    Term.mapSharedAll Term.lower ts = Term.lowerAll ts := by
  induction ts with
  | nil => rfl
  | cons t ts ih =>
    rw [Term.mapSharedAll, Term.lowerAll, each t List.mem_cons_self,
      ih fun t member => each t (List.mem_cons_of_mem _ member)]

theorem mapSharedParts_lower {ps : List Term} (each : ∀ p ∈ ps, p.mapShared Term.lower = p.lower) :
    Term.mapSharedParts Term.lower ps = Term.lowerParts ps := by
  induction ps with
  | nil => rfl
  | cons p ps ih =>
    have here := each p List.mem_cons_self
    have there := ih fun p member => each p (List.mem_cons_of_mem _ member)
    cases p <;> simp only [Term.mapSharedParts, Term.lowerParts, here, there]

/-- Lowering is a mapping of shared variables. -/
theorem mapShared_lower (t : Term) : t.mapShared Term.lower = t.lower := by
  induction t using Term.induction with
  | vec _ args ih | call _ args ih => rw [Term.mapShared, Term.lower, mapSharedAll_lower ih]
  | raw ps ih => rw [Term.mapShared, Term.lower, mapSharedParts_lower ih]
  | swizzle base components ih => rw [Term.mapShared, Term.lower, ih]
  | shared => rw [Term.mapShared]
  | number | ref | absent | text | define | commit => rfl

/-- An expression is lowered by lowering its outermost shared variables, one after the other in
source order. -/
theorem lower_eq_refill {t : Term} (shape : t.isExpression = true) :
    t.lower = t.refill <$> t.outerShared.mapM Term.lower := by
  rw [← mapShared_lower t]
  exact Term.mapShared_eq_refill shape

end ShaderFlow.Lowering
