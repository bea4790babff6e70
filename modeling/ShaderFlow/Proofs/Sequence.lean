import Mathlib.Data.List.Induction

set_option autoImplicit false

namespace ShaderFlow

variable {α β : Type}

/-- An item of a list with one more at the end is the last one or an item of the list. -/
theorem eq_or_mem_of_snoc_eq {xs front back : List α} {a c : α}
    (split : xs ++ [a] = front ++ c :: back) :
    xs = front ∧ a = c ∨ ∃ rest, xs = front ++ c :: rest := by
  rcases List.eq_nil_or_concat back with rfl | ⟨rest, last, rfl⟩
  · obtain ⟨same, last⟩ := List.append_inj' split rfl
    exact .inl ⟨same, List.head_eq_of_cons_eq last⟩
  · rw [List.concat_eq_append, ← List.cons_append, ← List.append_assoc] at split
    exact .inr ⟨rest, (List.append_inj' split rfl).1⟩

/-- Each item comes after items with all the keys it needs. -/
def Sequenced (key : α → β) (needs : α → β → Prop) (xs : List α) : Prop :=
  ∀ front a back, xs = front ++ a :: back → ∀ b, needs a b → b ∈ front.map key

namespace Sequenced

variable {key : α → β} {needs : α → β → Prop} {xs ys : List α}

theorem nil : Sequenced key needs [] := by
  intro front a back split
  simp at split

theorem snoc {a : α} (sequenced : Sequenced key needs xs) (met : ∀ b, needs a b → b ∈ xs.map key) :
    Sequenced key needs (xs ++ [a]) := by
  intro front c back split
  rcases eq_or_mem_of_snoc_eq split with ⟨rfl, rfl⟩ | ⟨rest, same⟩
  · exact met
  · exact sequenced front c rest same

theorem of_append (sequenced : Sequenced key needs (xs ++ ys)) : Sequenced key needs xs := by
  intro front a back split
  exact sequenced front a (back ++ ys) (by simp [split])

theorem last_met {a : α} (sequenced : Sequenced key needs (xs ++ [a])) :
    ∀ b, needs a b → b ∈ xs.map key :=
  sequenced xs a [] rfl

/-- Whatever an item needs is in the list. -/
theorem mem_of_needs (sequenced : Sequenced key needs xs) {a : α} (member : a ∈ xs) {b : β}
    (need : needs a b) : b ∈ xs.map key := by
  obtain ⟨front, back, rfl⟩ := List.append_of_mem member
  rw [List.map_append]
  exact List.mem_append_left _ (sequenced front a back rfl b need)

theorem append (first : Sequenced key needs xs) (second : Sequenced key needs ys) :
    Sequenced key needs (xs ++ ys) := by
  induction ys using List.reverseRecOn with
  | nil => simpa using first
  | append_singleton ys a ih =>
    rw [← List.append_assoc]
    refine (ih second.of_append).snoc fun b need => ?_
    rw [List.map_append]
    exact List.mem_append_right _ (second.last_met b need)

/-- A part that holds all that it needs is in sequence. -/
theorem filter {p : α → Bool} (sequenced : Sequenced key needs xs)
    (closed : ∀ a b, needs a (key b) → p a = true → p b = true) :
    Sequenced key needs (xs.filter p) := by
  induction xs using List.reverseRecOn with
  | nil => exact nil
  | append_singleton xs a ih =>
    rw [List.filter_append]
    by_cases chosen : p a = true
    · rw [List.filter_cons_of_pos chosen, List.filter_nil]
      refine (ih sequenced.of_append).snoc fun b need => ?_
      obtain ⟨c, member, rfl⟩ := List.mem_map.mp (sequenced.last_met b need)
      exact List.mem_map.mpr ⟨c, List.mem_filter.mpr ⟨member, closed a c need chosen⟩, rfl⟩
    · rw [List.filter_cons_of_neg chosen, List.filter_nil, List.append_nil]
      exact ih sequenced.of_append

end Sequenced

end ShaderFlow
