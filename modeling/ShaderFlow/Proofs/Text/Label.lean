import Mathlib
import ShaderFlow.Json.Display

set_option autoImplicit false

namespace ShaderFlow.Label

private theorem cut_first {front front' rest rest' : List Char} (plain : '_' ∉ front)
    (plain' : '_' ∉ front') (same : front ++ '_' :: rest = front' ++ '_' :: rest') :
    front = front' ∧ rest = rest' := by
  induction front generalizing front' with
  | nil =>
    cases front' with
    | nil => exact ⟨rfl, (List.cons.inj same).2⟩
    | cons c cs =>
      have head := (List.cons.inj same).1
      simp [← head] at plain'
  | cons c cs ih =>
    cases front' with
    | nil =>
      have head := (List.cons.inj same).1
      simp [head] at plain
    | cons d ds =>
      obtain ⟨rfl, tail⟩ := List.cons.inj same
      simp only [List.mem_cons, not_or] at plain plain'
      obtain ⟨rfl, rest⟩ := ih plain.2 plain'.2 tail
      exact ⟨rfl, rest⟩

/-- Two texts that agree up to an underscore after words without one agree on both sides of it. -/
theorem join_inj_left {front front' rest rest' : String} (plain : '_' ∉ front.toList)
    (plain' : '_' ∉ front'.toList) (same : front ++ "_" ++ rest = front' ++ "_" ++ rest') :
    front = front' ∧ rest = rest' := by
  have chars := congrArg String.toList same
  simp only [String.toList_append, List.append_assoc] at chars
  obtain ⟨left, right⟩ := cut_first plain plain' chars
  exact ⟨String.toList_inj.mp left, String.toList_inj.mp right⟩

/-- Two texts that agree from an underscore on, with words without one behind it, agree on both
sides of it. -/
theorem join_inj_right {front front' rest rest' : String} (plain : '_' ∉ rest.toList)
    (plain' : '_' ∉ rest'.toList) (same : front ++ "_" ++ rest = front' ++ "_" ++ rest') :
    front = front' ∧ rest = rest' := by
  have chars := congrArg (List.reverse ∘ String.toList) same
  simp only [Function.comp, String.toList_append, List.reverse_append] at chars
  obtain ⟨right, left⟩ := cut_first (by simpa using plain) (by simpa using plain') chars
  exact ⟨String.toList_inj.mp (List.reverse_inj.mp left),
    String.toList_inj.mp (List.reverse_inj.mp right)⟩

theorem underscore_not_mem_natRepr (n : Nat) : '_' ∉ n.repr.toList := by
  simp [Nat.toList_repr]

theorem underscore_not_mem_intRepr (n : Int) : '_' ∉ n.repr.toList := by
  rw [Int.repr_eq_if]
  split <;> simp [Nat.toList_repr]

end ShaderFlow.Label
