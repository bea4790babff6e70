import Mathlib.Data.List.Induction
import ShaderFlow.Graph.Basic

set_option autoImplicit false

namespace ShaderFlow

section Grouping

variable {κ α : Type} [BEq κ] [LawfulBEq κ]

theorem lookup_group (groups : List (κ × List α)) (key : κ) (a : α) (k : κ) :
    ((group groups key a).lookup k).getD [] =
      (groups.lookup k).getD [] ++ if key == k then [a] else [] := by
  induction groups with
  | nil =>
    by_cases same : key = k
    · subst same
      simp [group]
    · have other : (k == key) = false := by simpa using Ne.symm same
      simp [group, List.lookup_cons, other, same]
  | cons entry rest ih =>
    obtain ⟨k', as⟩ := entry
    by_cases here : k' = key
    · subst here
      by_cases same : k' = k
      · subst same
        simp [group]
      · have other : (k == k') = false := by simpa using Ne.symm same
        simp [group, List.lookup_cons, other, same]
    · have apart : (k' == key) = false := by simpa using here
      simp only [group, apart, Bool.false_eq_true, if_false, List.lookup_cons]
      by_cases same : k = k'
      · subst same
        have apart' : (key == k) = false := by simpa using Ne.symm here
        simp [apart']
      · have other : (k == k') = false := by simpa using same
        simpa [other] using ih

/-- Grouping puts all items of a key together, in order. -/
theorem lookup_foldl_group (key : α → κ) (items : List α) (k : κ) :
    ((items.foldl (fun groups a => group groups (key a) a) []).lookup k).getD [] =
      items.filter (key · == k) := by
  induction items using List.reverseRecOn with
  | nil => rfl
  | append_singleton items a ih =>
    rw [List.foldl_append, List.foldl_cons, List.foldl_nil, lookup_group, ih, List.filter_append]
    by_cases same : key a = k <;> simp [same]

end Grouping

namespace Graph

variable {g : Graph Int}

/-- The links into an input, in order. -/
def linksInto (g : Graph Int) (id : Int) (input : String) : List (Link Int) :=
  g.links.filter fun l => l.target == id && l.input == input

theorem mem_linksInto {id : Int} {input : String} {l : Link Int} :
    l ∈ g.linksInto id input ↔ l ∈ g.links ∧ l.target = id ∧ l.input = input := by
  simp [linksInto]

/-- The links out of an output, in order. -/
def linksOutOf (g : Graph Int) (id : Int) (output : String) : List (Link Int) :=
  g.links.filter fun l => l.source == id && l.output == output

theorem lookup_inputsOf (g : Graph Int) (id : Int) (input : String) :
    ((g.inputsOf id).lookup input).getD [] = g.linksInto id input := by
  rw [inputsOf, lookup_foldl_group, List.filter_filter, linksInto]
  congr 1
  funext l
  rw [Bool.and_comm]

theorem lookup_outputsOf (g : Graph Int) (id : Int) (output : String) :
    ((g.outputsOf id).lookup output).getD [] = g.linksOutOf id output := by
  rw [outputsOf, lookup_foldl_group, List.filter_filter, linksOutOf]
  congr 1
  funext l
  rw [Bool.and_comm]

end Graph

end ShaderFlow
