import ShaderFlow.Proofs.Outcome
import ShaderFlow.Render.Window

set_option autoImplicit false

namespace ShaderFlow.Work

variable {σ α β : Type} {I : σ → Prop}

/-- Work that starts where something holds ends where it holds. -/
def Preserves (I : σ → Prop) (work : ExceptT Error (StateM σ) α) : Prop :=
  ∀ s, I s → I (work.run s).2

namespace Preserves

theorem pure (a : α) : Preserves I (Pure.pure a : ExceptT Error (StateM σ) α) :=
  fun _ holds => holds

theorem bind {x : ExceptT Error (StateM σ) α} {f : α → ExceptT Error (StateM σ) β}
    (first : Preserves I x) (next : ∀ a, Preserves I (f a)) : Preserves I (x >>= f) := by
  intro s holds
  have kept := first s holds
  cases run : x.run s with
  | mk outcome s' =>
    rw [run] at kept
    cases outcome with
    | ok a =>
      rw [run_bind_ok run]
      exact next a s' kept
    | error e =>
      rw [run_bind_error run]
      exact kept

/-- A state that is looked at is one where the invariant holds. -/
theorem get_bind {f : σ → ExceptT Error (StateM σ) β} (next : ∀ s, I s → Preserves I (f s)) :
    Preserves I (get >>= f) := by
  intro s holds
  rw [run_get_bind]
  exact next s holds s holds

theorem change {f : σ → σ} (each : ∀ s, I s → I (f s)) :
    Preserves I (modify f : ExceptT Error (StateM σ) PUnit) := fun s holds => each s holds

theorem lift (outcome : Except Error α) :
    Preserves I (liftM outcome : ExceptT Error (StateM σ) α) := fun _ holds => holds

theorem ite {condition : Prop} [Decidable condition] {x y : ExceptT Error (StateM σ) α}
    (first : Preserves I x) (second : Preserves I y) :
    Preserves I (if condition then x else y) := by
  split
  · exact first
  · exact second

theorem forM {f : α → ExceptT Error (StateM σ) PUnit} (each : ∀ a, Preserves I (f a))
    (as : List α) :
    Preserves I (as.forM f) := by
  induction as with
  | nil => exact pure _
  | cons a as ih => exact (each a).bind fun _ => ih

end Preserves

end ShaderFlow.Work
