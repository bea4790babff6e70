import Mathlib.Data.List.Perm.Subperm
import ShaderFlow.Proofs.Term.Shape

set_option autoImplicit false

namespace ShaderFlow.Term

theorem sizeAll_perm {ts us : List Term} (perm : ts.Perm us) : sizeAll ts = sizeAll us := by
  induction perm with
  | nil => rfl
  | cons t _ ih => rw [sizeAll, sizeAll, ih]
  | swap t u ts => simp only [sizeAll]; omega
  | trans _ _ first second => exact first.trans second

theorem sizeAll_sublist {ts us : List Term} (sublist : ts.Sublist us) :
    sizeAll ts ≤ sizeAll us := by
  induction sublist with
  | slnil => exact Nat.le_refl _
  | cons t _ ih => rw [sizeAll]; omega
  | cons_cons t _ ih => rw [sizeAll, sizeAll]; omega

/-- What is read off items that are met once each is no larger than what is read off a list that has
them all. -/
theorem sizeAll_filterMap_le_of_subset {α : Type} {xs ys : List α} (nodup : xs.Nodup)
    (subset : xs ⊆ ys) (f : α → Option Term) :
    sizeAll (xs.filterMap f) ≤ sizeAll (ys.filterMap f) := by
  classical
  obtain ⟨zs, perm, sublist⟩ := List.subperm_of_subset nodup subset
  rw [← sizeAll_perm (perm.filterMap f)]
  exact sizeAll_sublist (sublist.filterMap f)

theorem sizeAll_le_of_subset {ts us : List Term} (nodup : ts.Nodup) (subset : ts ⊆ us) :
    sizeAll ts ≤ sizeAll us := by
  simpa using sizeAll_filterMap_le_of_subset nodup subset some

theorem sizeAll_le_mul {ts : List Term} {bound : Nat} (each : ∀ t ∈ ts, t.size ≤ bound) :
    sizeAll ts ≤ bound * ts.length := by
  induction ts with
  | nil => simp [sizeAll]
  | cons t ts ih =>
    have here := each t (by simp)
    have rest := ih fun u member => each u (by simp [member])
    rw [sizeAll, List.length_cons, Nat.mul_succ]
    omega

theorem sizeAll_intersperse_le (ts : List Term) (sep : Term) :
    sizeAll (ts.intersperse sep) ≤ sizeAll ts + sep.size * ts.length := by
  induction ts with
  | nil => simp [sizeAll]
  | cons t ts ih =>
    cases ts with
    | nil => simp [sizeAll]
    | cons u us =>
      rw [List.intersperse_cons_cons]
      simp only [sizeAll, List.length_cons, Nat.mul_succ] at ih ⊢
      omega

/-- A bound that holds of each part of a list holds of the whole. -/
theorem sizeAll_flatMap_le {α : Type} {xs : List α} {spent made given : α → List Term} {bound : Nat}
    (each : ∀ x ∈ xs, sizeAll (spent x) + sizeAll (made x) ≤ bound + sizeAll (given x)) :
    sizeAll (xs.flatMap spent) + sizeAll (xs.flatMap made) ≤
      bound * xs.length + sizeAll (xs.flatMap given) := by
  induction xs with
  | nil => simp [sizeAll]
  | cons x xs ih =>
    have here := each x (by simp)
    have rest := ih fun y member => each y (by simp [member])
    simp only [List.flatMap_cons, sizeAll_append, List.length_cons, Nat.mul_succ]
    omega

theorem size_le_of_mem {t : Term} {ts : List Term} (member : t ∈ ts) : t.size ≤ sizeAll ts := by
  obtain ⟨front, back, rfl⟩ := List.append_of_mem member
  rw [sizeAll_append, sizeAll]
  omega

theorem size_le_of_mem_allShared {t u : Term} (member : u ∈ t.allShared) : u.size ≤ t.size := by
  have lists : ∀ {ts : List Term}, (∀ t ∈ ts, u ∈ t.allShared → u.size ≤ t.size) →
      u ∈ ts.flatMap allShared → u.size ≤ sizeAll ts := by
    intro ts each member
    obtain ⟨t, inside, found⟩ := List.mem_flatMap.mp member
    exact Nat.le_trans (each t inside found) (size_le_of_mem inside)
  induction t using Term.induction with
  | vec _ _ ih | call _ _ ih | raw _ ih =>
    have below := lists ih (by simpa using member)
    simp only [size]
    omega
  | swizzle _ _ ih | define _ _ _ ih | commit _ ih =>
    have below := ih (by simpa using member)
    simp only [size]
    omega
  | shared key type init stem ih =>
    simp only [gather, sharedLeaf, if_true, List.mem_append, List.mem_singleton] at member
    rcases member with rfl | member
    · exact Nat.le_refl _
    · have below := ih member
      simp only [size]
      omega
  | absent | text | number | ref => simp at member

/-- No shared variable is within its own initializer. -/
theorem shared_not_mem_init (key : Key) (type : String) (init : Term) (stem : String) :
    shared key type init stem ∉ init.allShared := by
  intro member
  have below := size_le_of_mem_allShared member
  simp only [size] at below
  omega

theorem exists_walkAll {ts : List Term}
    (each : ∀ t ∈ ts, ∃ nodes, t.walk = .ok nodes ∧ nodes.length ≤ t.size) :
    ∃ nodes, walkAll ts = .ok nodes ∧ nodes.length ≤ sizeAll ts := by
  induction ts with
  | nil => exact ⟨[], rfl, Nat.le_refl _⟩
  | cons t ts ih =>
    obtain ⟨first, walked, bound⟩ := each t (by simp)
    obtain ⟨rest, walked', bound'⟩ := ih fun u member => each u (by simp [member])
    refine ⟨first ++ rest, by simp [walkAll, walked, walked'], ?_⟩
    rw [List.length_append, sizeAll]
    omega

/-- A traversal of an expression meets at most as many terms as its size says. -/
theorem exists_walk (t : Term) (shape : t.isExpression = true) :
    ∃ nodes, t.walk = .ok nodes ∧ nodes.length ≤ t.size := by
  induction t using Term.induction with
  | number x => exact ⟨[number x], rfl, Nat.le_refl _⟩
  | ref name => exact ⟨[ref name], rfl, Nat.le_refl _⟩
  | vec type args ih =>
    simp only [isExpression, areExpressions_eq, List.all_eq_true] at shape
    obtain ⟨nodes, walked, bound⟩ := exists_walkAll fun t member => ih t member (shape t member)
    exact ⟨_, by rw [walk, walked]; rfl, by rw [List.length_cons, size]; omega⟩
  | call func args ih =>
    simp only [isExpression, areExpressions_eq, List.all_eq_true] at shape
    obtain ⟨nodes, walked, bound⟩ := exists_walkAll fun t member => ih t member (shape t member)
    exact ⟨_, by rw [walk, walked]; rfl, by rw [List.length_cons, size]; omega⟩
  | raw parts ih =>
    simp only [isExpression, areParts_eq, List.all_eq_true, Bool.or_eq_true] at shape
    -- Text is no term, so the traversal passes it by.
    obtain ⟨nodes, walked, bound⟩ : ∃ nodes, walkAll (parts.filter (!·.isText)) = .ok nodes ∧
        nodes.length ≤ sizeAll (parts.filter (!·.isText)) := by
      refine exists_walkAll fun t member => ?_
      obtain ⟨inside, proper⟩ := List.mem_filter.mp member
      exact ih t inside ((shape t inside).resolve_left (by simpa using proper))
    have kept := sizeAll_filter_le (!·.isText) parts
    exact ⟨_, by rw [walk, walkParts_eq, walked]; rfl, by rw [List.length_cons, size]; omega⟩
  | swizzle base components ih =>
    obtain ⟨nodes, walked, bound⟩ := ih (by simpa using shape)
    exact ⟨_, by rw [walk, walked]; rfl, by rw [List.length_cons, size]; omega⟩
  | shared key type init stem ih =>
    obtain ⟨nodes, walked, bound⟩ := ih (by simpa using shape)
    exact ⟨_, by rw [walk, walked]; rfl, by rw [List.length_cons, size]; omega⟩
  | absent | text | define | commit => simp at shape

theorem exists_walk_of_isStatement {t : Term} (shape : t.isStatement = true) :
    ∃ nodes, t.walk = .ok nodes ∧ nodes.length ≤ t.size := by
  cases t with
  | define name type init =>
    obtain ⟨nodes, walked, bound⟩ := init.exists_walk shape
    exact ⟨_, by rw [walk, walked]; rfl, by rw [List.length_cons, size]; omega⟩
  | commit value =>
    obtain ⟨nodes, walked, bound⟩ := value.exists_walk shape
    exact ⟨_, by rw [walk, walked]; rfl, by rw [List.length_cons, size]; omega⟩
  | _ => cases shape

end ShaderFlow.Term
