import ShaderFlow.Proofs.Term.Shape

set_option autoImplicit false

namespace ShaderFlow

namespace Binary64

/-- The number, with zero written without a sign. -/
def canonical (x : Binary64) : Binary64 := if x.isZero then zero false else x

theorem alike_iff (x y : Binary64) : x.alike y = true ↔ x.canonical = y.canonical := by
  have isZero_zero : (zero false).isZero = true := by decide
  simp only [alike, canonical, Bool.or_eq_true, beq_iff_eq, Bool.and_eq_true]
  constructor
  · rintro (rfl | ⟨zeroX, zeroY⟩)
    · rfl
    · rw [if_pos zeroX, if_pos zeroY]
  · intro same
    split at same <;> split at same <;> simp_all

end Binary64

namespace Term

mutual
/-- The term with canonical numbers. -/
def canonical : Term → Term
  | number x => number x.canonical
  | vec type args => vec type (canonicalAll args)
  | call func args => call func (canonicalAll args)
  | swizzle t cs => swizzle t.canonical cs
  | raw ps => raw (canonicalAll ps)
  | shared key type t stem => shared key type t.canonical stem
  | define name type t => define name type t.canonical
  | commit t => commit t.canonical
  | absent => absent
  | text s => text s
  | ref name => ref name

def canonicalAll : List Term → List Term
  | [] => []
  | t :: ts => t.canonical :: canonicalAll ts
end

@[simp] theorem canonicalAll_eq (ts : List Term) : canonicalAll ts = ts.map canonical := by
  induction ts with
  | nil => rfl
  | cons t ts ih => rw [canonicalAll, List.map_cons, ih]

private theorem alikeAll_iff {ts : List Term}
    (each : ∀ t ∈ ts, ∀ u, t.alike u = true ↔ t.canonical = u.canonical) (us : List Term) :
    alikeAll ts us = true ↔ ts.map canonical = us.map canonical := by
  induction ts generalizing us with
  | nil => cases us <;> simp [alikeAll]
  | cons t ts ih =>
    cases us with
    | nil => simp [alikeAll]
    | cons u us =>
      simp [alikeAll, each t (by simp) u, ih fun t member => each t (by simp [member])]

theorem alike_iff (t u : Term) : t.alike u = true ↔ t.canonical = u.canonical := by
  induction t using Term.induction generalizing u with
  | vec type args ih => cases u <;> simp [alike, canonical, alikeAll_iff ih]
  | call func args ih => cases u <;> simp [alike, canonical, alikeAll_iff ih]
  | raw parts ih => cases u <;> simp [alike, canonical, alikeAll_iff ih]
  | number x => cases u <;> simp [alike, canonical, Binary64.alike_iff]
  | swizzle base components ih => cases u <;> simp [alike, canonical, ih]
  | shared key type init stem ih => cases u <;> simp [alike, canonical, ih, and_assoc]
  | define name type init ih => cases u <;> simp [alike, canonical, ih, and_assoc]
  | commit value ih => cases u <;> simp [alike, canonical, ih]
  | absent | text | ref => cases u <;> simp [alike, canonical]

theorem names_canonical (t : Term) : t.canonical.names = t.names := by
  have lists : ∀ {ts : List Term}, (∀ t ∈ ts, t.canonical.names = t.names) →
      (ts.map canonical).flatMap names = ts.flatMap names := by
    intro ts each
    rw [List.flatMap_map]
    exact List.flatMap_congr each
  induction t using Term.induction with
  | vec type args ih => simpa [canonical] using lists ih
  | call func args ih => simpa [canonical] using lists ih
  | raw parts ih => simpa [canonical] using lists ih
  | swizzle base components ih => simpa [canonical] using ih
  | define name type init ih => simpa [canonical] using ih
  | commit value ih => simpa [canonical] using ih
  | absent | text | number | ref | shared => simp [canonical]

theorem names_eq_of_alike {t u : Term} (same : t.alike u = true) : t.names = u.names := by
  rw [← names_canonical t, ← names_canonical u, (alike_iff t u).mp same]

end Term

end ShaderFlow
