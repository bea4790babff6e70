import Mathlib.Data.List.Forall2
import ShaderFlow.Logged

set_option autoImplicit false

namespace ShaderFlow

variable {α β : Type}

theorem exists_of_forall₂ {R : α → β → Prop} {xs : List α} {ys : List β}
    (related : List.Forall₂ R xs ys) {y : β} (member : y ∈ ys) : ∃ x ∈ xs, R x y := by
  induction related with
  | nil => simp at member
  | cons here _ ih =>
    rcases List.mem_cons.mp member with rfl | member
    · exact ⟨_, List.mem_cons_self, here⟩
    · obtain ⟨x, inside, there⟩ := ih member
      exact ⟨x, List.mem_cons_of_mem _ inside, there⟩

namespace Outcome

@[simp] theorem ok_bind (a : α) (next : α → Except Error β) :
    ((.ok a : Except Error α) >>= next) = next a := rfl

@[simp] theorem error_bind (e : Error) (next : α → Except Error β) :
    ((.error e : Except Error α) >>= next) = .error e := rfl

theorem bind_eq_ok_iff {ε : Type} {first : Except ε α} {next : α → Except ε β} {b : β} :
    (first >>= next) = .ok b ↔ ∃ a, first = .ok a ∧ next a = .ok b := by
  cases first <;> simp [bind, Except.bind]

theorem bind_eq_error_iff {first : Except Error α} {next : α → Except Error β} {e : Error} :
    (first >>= next) = .error e ↔ first = .error e ∨ ∃ a, first = .ok a ∧ next a = .error e := by
  cases first <;> simp [bind, Except.bind]

theorem map_eq_ok_iff {first : Except Error α} {f : α → β} {b : β} :
    f <$> first = .ok b ↔ ∃ a, first = .ok a ∧ f a = b := by
  cases first <;> simp [Functor.map, Except.map]

/-- A list goes through when each of its items does. -/
theorem mapM_eq_ok_iff {f : α → Except Error β} {xs : List α} {ys : List β} :
    xs.mapM f = .ok ys ↔ List.Forall₂ (fun x y => f x = .ok y) xs ys := by
  induction xs generalizing ys with
  | nil => simp [pure, Except.pure, eq_comm]
  | cons x xs ih =>
    rw [List.mapM_cons, bind_eq_ok_iff]
    constructor
    · rintro ⟨y, here, success⟩
      obtain ⟨rest, there, same⟩ := bind_eq_ok_iff.mp success
      cases same
      exact .cons here (ih.mp there)
    · intro related
      obtain ⟨y, rest, here, there, rfl⟩ := List.forall₂_cons_left_iff.mp related
      exact ⟨y, here, bind_eq_ok_iff.mpr ⟨rest, ih.mpr there, rfl⟩⟩

theorem exists_mapM_eq_ok {f : α → Except Error β} {xs : List α}
    (each : ∀ x ∈ xs, ∃ y, f x = .ok y) : ∃ ys, xs.mapM f = .ok ys := by
  induction xs with
  | nil => exact ⟨[], rfl⟩
  | cons x xs ih =>
    obtain ⟨y, here⟩ := each x (by simp)
    obtain ⟨ys, there⟩ := ih fun x member => each x (by simp [member])
    exact ⟨y :: ys, mapM_eq_ok_iff.mpr (.cons here (mapM_eq_ok_iff.mp there))⟩

/-- A list fails as one of its items does. -/
theorem exists_of_mapM_eq_error {f : α → Except Error β} {xs : List α} {e : Error}
    (failed : xs.mapM f = .error e) : ∃ x ∈ xs, f x = .error e := by
  induction xs with
  | nil => cases failed
  | cons x xs ih =>
    rw [List.mapM_cons] at failed
    rcases bind_eq_error_iff.mp failed with here | ⟨y, -, failed⟩
    · exact ⟨x, by simp, here⟩
    · rcases bind_eq_error_iff.mp failed with there | ⟨ys, -, done⟩
      · obtain ⟨x', inside, fails⟩ := ih there
        exact ⟨x', by simp [inside], fails⟩
      · cases done

theorem toOption_eq_some_iff {work : Except Error α} {a : α} :
    work.toOption = some a ↔ work = .ok a := by
  cases work <;> simp [Except.toOption]

theorem eq_ok_of_isOk {work : Except Error α} (success : work.isOk = true) (a : α) :
    work = .ok (work.toOption.getD a) := by
  cases work with
  | ok b => rfl
  | error e => cases success

theorem toOption_bind (first : Except Error α) (next : α → Except Error β) :
    (first >>= next).toOption = (first.toOption >>= fun a => (next a).toOption) := by
  cases first <;> rfl

/-- A list comes to something when what each of its items comes to does. -/
theorem toOption_mapM {f : α → Except Error β} {f' : α → Option β} {xs : List α}
    (each : ∀ x ∈ xs, (f x).toOption = f' x) : (xs.mapM f).toOption = xs.mapM f' := by
  induction xs with
  | nil => rfl
  | cons x xs ih =>
    simp only [List.mapM_cons, toOption_bind, each x List.mem_cons_self,
      ih fun x member => each x (List.mem_cons_of_mem _ member)]
    rfl

end Outcome

namespace Work

variable {σ ε : Type} {x : ExceptT ε (StateM σ) α} {f : α → ExceptT ε (StateM σ) β} {s s' : σ}

theorem run_bind : (x >>= f).run s = ExceptT.bindCont f (x.run s).1 (x.run s).2 := rfl

theorem run_bind_ok {a : α} (first : x.run s = (.ok a, s')) : (x >>= f).run s = (f a).run s' := by
  rw [run_bind, first]
  rfl

theorem run_bind_error {e : ε} (first : x.run s = (.error e, s')) :
    (x >>= f).run s = (.error e, s') := by
  rw [run_bind, first]
  rfl

theorem run_get_bind {f : σ → ExceptT ε (StateM σ) β} : (get >>= f).run s = (f s).run s := rfl

theorem run_modify_bind {change : σ → σ} {f : PUnit → ExceptT ε (StateM σ) β} :
    (modify change >>= f).run s = (f ⟨⟩).run (change s) := rfl

end Work

@[simp] theorem Logged.outcome_liftM (outcome : Except Error α) :
    (liftM outcome : Logged α).outcome = outcome := rfl

theorem Logged.liftM_ok_bind (a : α) (next : α → Logged β) :
    ((liftM (.ok a : Except Error α) : Logged α) >>= next) = next a := rfl

end ShaderFlow
