import ShaderFlow.Json.Coerce
import ShaderFlow.Proofs.Outcome

set_option autoImplicit false

namespace ShaderFlow

namespace Outcome

variable {α β : Type} {E : Error → Prop} {P : α → Prop}

/-- A computation gives a value with one property, or fails with an error that has another. -/
inductive Yields (E : Error → Prop) (P : α → Prop) : Except Error α → Prop
  | ok {a : α} (holds : P a) : Yields E P (.ok a)
  | error {e : Error} (cause : E e) : Yields E P (.error e)

namespace Yields

theorem value {a : α} (yields : Yields E P (.ok a)) : P a := by
  cases yields with
  | ok holds => exact holds

theorem mono {F : Error → Prop} {Q : α → Prop} {work : Except Error α} (yields : Yields E P work)
    (errors : ∀ e, E e → F e) (values : ∀ a, P a → Q a) : Yields F Q work := by
  cases yields with
  | ok holds => exact .ok (values _ holds)
  | error cause => exact .error (errors _ cause)

theorem bind {Q : β → Prop} {first : Except Error α} {next : α → Except Error β}
    (here : Yields E P first) (there : ∀ a, P a → Yields E Q (next a)) :
    Yields E Q (first >>= next) := by
  cases here with
  | ok holds => exact there _ holds
  | error cause => exact .error cause

/-- What is known of a result can be what it is the result of. -/
theorem self {work : Except Error α} (yields : Yields E (fun _ => True) work) :
    Yields E (fun a => work = .ok a) work := by
  cases yields with
  | ok => exact .ok rfl
  | error cause => exact .error cause

/-- A loop keeps what ties its state to the items that it went through. -/
theorem foldlM {I : List α → β → Prop} {f : β → α → Except Error β} {b : β} (start : I [] b)
    (step : ∀ done b a, I done b → Yields E (I (done ++ [a])) (f b a)) (xs : List α) :
    Yields E (I xs) (xs.foldlM f b) := by
  suffices general : ∀ done b, I done b → Yields E (I (done ++ xs)) (xs.foldlM f b) from
    general [] b start
  induction xs with
  | nil =>
    intro done b inv
    rw [List.append_nil]
    exact .ok inv
  | cons x xs ih =>
    intro done b inv
    rw [List.foldlM_cons]
    refine (step done b x inv).bind fun b' inv' => ?_
    have rest := ih (done ++ [x]) b' inv'
    rwa [List.append_assoc, List.singleton_append] at rest

theorem forM {f : α → Except Error PUnit} (each : ∀ a, Yields E (fun _ => True) (f a))
    (xs : List α) : Yields E (fun _ => True) (xs.forM f) := by
  induction xs with
  | nil => exact .ok trivial
  | cons x xs ih =>
    rw [List.forM_eq_forM, List.forM_cons]
    exact (each x).bind fun _ _ => ih

end Yields

/-- A computation fails only with what a faulty document leads to. -/
abbrev Faults (work : Except Error α) : Prop :=
  Yields (fun e => e.isDocumentFault = true) (fun _ => True) work

end Outcome

namespace Json

open Outcome

theorem faults_toInteger (v : Json) : Faults v.toInteger := by
  cases v with
  | float x =>
    simp only [toInteger]
    split
    · exact .ok trivial
    · split <;> exact .error rfl
  | str s =>
    simp only [toInteger]
    split
    · exact .ok trivial
    · exact .error rfl
    · exact .error rfl
  | bool | int => exact .ok trivial
  | null | arr | obj => exact .error rfl

theorem faults_floatOfInt (n : Int) : Faults (floatOfInt n) := by
  unfold floatOfInt
  split
  · exact .ok trivial
  · exact .error rfl

theorem faults_toNumber (v : Json) : Faults v.toNumber := by
  cases v with
  | bool b => exact faults_floatOfInt _
  | int n => exact faults_floatOfInt n
  | float => exact .ok trivial
  | str s =>
    simp only [toNumber]
    split
    · exact .ok trivial
    · exact .error rfl
  | null | arr | obj => exact .error rfl

theorem faults_items (v : Json) : Faults v.items := by
  cases v with
  | arr | str | obj => exact .ok trivial
  | null | bool | int | float => exact .error rfl

theorem faults_pair (v : Json) : Faults v.pair := by
  unfold pair
  split
  · exact .ok trivial
  all_goals exact .error rfl

theorem faults_member (v : Json) (key : String) : Faults (v.member key) := by
  cases v with
  | obj members =>
    simp only [member]
    split
    · exact .ok trivial
    · exact .error rfl
  | _ => exact .error rfl

theorem faults_membersOf (v : Json) : Faults v.membersOf := by
  cases v with
  | obj => exact .ok trivial
  | _ => exact .error rfl

theorem faults_asLabel (v : Json) : Faults v.asLabel := by
  cases v with
  | arr | obj => exact .error rfl
  | _ => exact .ok trivial

theorem faults_checkWritable (v : Json) : Faults v.checkWritable := by
  cases v with
  | int n =>
    rw [checkWritable]
    split
    · exact .ok trivial
    · exact .error rfl
  | _ => exact .ok trivial

end Json

end ShaderFlow
