import Mathlib.Data.List.Forall2
import ShaderFlow.Proofs.Term.Shape

set_option autoImplicit false

namespace ShaderFlow.Term

/-- The second term is the first with each outermost shared variable replaced by a reference to a
name that `entries` lists under its key. -/
inductive Replaces (entries : List (Key × String)) : Term → Term → Prop where
  | absent : Replaces entries absent absent
  | text (s : String) : Replaces entries (text s) (text s)
  | number (x : Binary64) : Replaces entries (number x) (number x)
  | ref (name : String) : Replaces entries (ref name) (ref name)
  | vec (type : VecType) {args args' : List Term} :
      List.Forall₂ (Replaces entries) args args' → Replaces entries (vec type args) (vec type args')
  | call (func : String) {args args' : List Term} :
      List.Forall₂ (Replaces entries) args args' →
        Replaces entries (call func args) (call func args')
  | swizzle (components : String) {base base' : Term} :
      Replaces entries base base' →
      Replaces entries (swizzle base components) (swizzle base' components)
  | raw {parts parts' : List Term} :
      List.Forall₂ (Replaces entries) parts parts' → Replaces entries (raw parts) (raw parts')
  | shared (key : Key) (type : String) (init : Term) (stem name : String) :
      (key, name) ∈ entries → Replaces entries (shared key type init stem) (ref name)
  | define (name type : String) {init init' : Term} :
      Replaces entries init init' →
        Replaces entries (define name type init) (define name type init')
  | commit {value value' : Term} :
      Replaces entries value value' → Replaces entries (commit value) (commit value')

namespace Replaces

variable {entries more : List (Key × String)}

/-- Induction over a replacement, where the pairs within it are met in step. -/
@[elab_as_elim]
theorem induction {P : (t u : Term) → Replaces entries t u → Prop}
    (absent : P _ _ .absent) (text : ∀ s, P _ _ (.text s)) (number : ∀ x, P _ _ (.number x))
    (ref : ∀ name, P _ _ (.ref name))
    (vec : ∀ type args args' (inner : List.Forall₂ (Replaces entries) args args'),
      List.Forall₂ (fun t u => ∃ related, P t u related) args args' → P _ _ (.vec type inner))
    (call : ∀ func args args' (inner : List.Forall₂ (Replaces entries) args args'),
      List.Forall₂ (fun t u => ∃ related, P t u related) args args' → P _ _ (.call func inner))
    (swizzle : ∀ components base base' (inner : Replaces entries base base'),
      P base base' inner → P _ _ (.swizzle components inner))
    (raw : ∀ parts parts' (inner : List.Forall₂ (Replaces entries) parts parts'),
      List.Forall₂ (fun t u => ∃ related, P t u related) parts parts' → P _ _ (.raw inner))
    (shared : ∀ key type init stem name (listed : (key, name) ∈ entries),
      P _ _ (.shared key type init stem name listed))
    (define : ∀ name type init init' (inner : Replaces entries init init'),
      P init init' inner → P _ _ (.define name type inner))
    (commit : ∀ value value' (inner : Replaces entries value value'),
      P value value' inner → P _ _ (.commit inner))
    {t u : Term} (related : Replaces entries t u) : P t u related := by
  refine @Replaces.rec entries P
    (fun ts us _ => List.Forall₂ (fun t u => ∃ related, P t u related) ts us) absent text number ref
    (fun type {_ _} => vec type _ _) (fun func {_ _} => call func _ _)
    (fun components {_ _} => swizzle components _ _) (raw _ _) shared
    (fun name type {_ _} => define name type _ _) (commit _ _) .nil ?_ t u related
  intro t u ts us related _ here there
  exact .cons ⟨related, here⟩ there

theorem mono (within : entries ⊆ more) {t u : Term} (related : Replaces entries t u) :
    Replaces more t u := by
  induction related using Replaces.induction with
  | absent => exact .absent
  | text s => exact .text s
  | number x => exact .number x
  | ref name => exact .ref name
  | vec type args args' _ ih => exact .vec type (ih.imp fun t u each => each.2)
  | call func args args' _ ih => exact .call func (ih.imp fun t u each => each.2)
  | swizzle components base base' _ ih => exact .swizzle components ih
  | raw parts parts' _ ih => exact .raw (ih.imp fun t u each => each.2)
  | shared key type init stem name listed => exact .shared key type init stem name (within listed)
  | define name type init init' _ ih => exact .define name type ih
  | commit value value' _ ih => exact .commit ih

/-- What a leaf of the lowered term gives, the same leaf gave before, or it is a name of `entries`.
-/
theorem gather_subset {α : Type} {f : Term → List α} {deep : Bool} {t u : Term}
    (related : Replaces entries t u) {a : α} (member : a ∈ u.gather f deep) :
    a ∈ t.gather f deep ∨ ∃ entry ∈ entries, a ∈ f (.ref entry.2) := by
  have lists : ∀ {ts us : List Term}, List.Forall₂ (fun t u => ∃ _ : Replaces entries t u,
      a ∈ u.gather f deep → a ∈ t.gather f deep ∨ ∃ entry ∈ entries, a ∈ f (.ref entry.2)) ts us →
      a ∈ us.flatMap (gather f deep) →
      a ∈ ts.flatMap (gather f deep) ∨ ∃ entry ∈ entries, a ∈ f (.ref entry.2) := by
    intro ts us inner member
    obtain ⟨u, inside, here⟩ := List.mem_flatMap.mp member
    obtain ⟨t, within, _, holds⟩ := exists_of_forall₂ inner inside
    rcases holds here with found | named
    · exact .inl (List.mem_flatMap.mpr ⟨t, within, found⟩)
    · exact .inr named
  induction related using Replaces.induction with
  | vec type args args' _ ih => simpa using lists ih (by simpa using member)
  | call func args args' _ ih => simpa using lists ih (by simpa using member)
  | raw parts parts' _ ih => simpa using lists ih (by simpa using member)
  | shared key type init stem name listed =>
    exact .inr ⟨(key, name), listed, by simpa using member⟩
  | swizzle components base base' _ ih => simpa using ih (by simpa using member)
  | define name type init init' _ ih => simpa using ih (by simpa using member)
  | commit value value' _ ih => simpa using ih (by simpa using member)
  | absent | text | number | ref => exact .inl member

theorem names_subset {t u : Term} (related : Replaces entries t u) {name : String}
    (member : name ∈ u.names) : name ∈ t.names ∨ ∃ key, (key, name) ∈ entries := by
  rcases related.gather_subset member with found | ⟨⟨key, other⟩, listed, same⟩
  · exact .inl found
  · obtain rfl : name = other := by simpa using same
    exact .inr ⟨key, listed⟩

theorem literals_subset {t u : Term} (related : Replaces entries t u) :
    u.literals ⊆ t.literals := by
  intro x member
  rcases related.gather_subset member with found | ⟨entry, _, same⟩
  · exact found
  · simp at same

/-- No shared variable is left at any depth. -/
theorem unshared {t u : Term} (related : Replaces entries t u) (deep : Bool) :
    u.gather sharedLeaf deep = [] := by
  have lists : ∀ {ts us : List Term}, List.Forall₂ (fun t u => ∃ _ : Replaces entries t u,
      u.gather sharedLeaf deep = []) ts us → us.flatMap (gather sharedLeaf deep) = [] := by
    intro ts us inner
    rw [List.flatMap_eq_nil_iff]
    intro u inside
    obtain ⟨_, _, _, blank⟩ := exists_of_forall₂ inner inside
    exact blank
  induction related using Replaces.induction with
  | vec type args args' _ ih => simpa using lists ih
  | call func args args' _ ih => simpa using lists ih
  | raw parts parts' _ ih => simpa using lists ih
  | swizzle components base base' _ ih => simpa using ih
  | define name type init init' _ ih => simpa using ih
  | commit value value' _ ih => simpa using ih
  | absent | text | number | ref | shared => rfl

/-- A term without shared variables is lowered as it is. -/
theorem eq_of_unshared {t u : Term} (related : Replaces entries t u) (plain : t.outerShared = []) :
    u = t := by
  have lists : ∀ {ts us : List Term}, List.Forall₂ (fun t u => ∃ _ : Replaces entries t u,
      t.outerShared = [] → u = t) ts us → ts.flatMap outerShared = [] → us = ts := by
    intro ts us inner plain
    induction inner with
    | nil => rfl
    | cons here _ ih =>
      obtain ⟨_, same⟩ := here
      obtain ⟨first, rest⟩ := List.append_eq_nil_iff.mp (List.flatMap_cons ▸ plain)
      rw [same first, ih rest]
  induction related using Replaces.induction with
  | vec type args args' _ ih => rw [lists ih (by simpa using plain)]
  | call func args args' _ ih => rw [lists ih (by simpa using plain)]
  | raw parts parts' _ ih => rw [lists ih (by simpa using plain)]
  | swizzle components base base' _ ih => rw [ih (by simpa using plain)]
  | define name type init init' _ ih => rw [ih (by simpa using plain)]
  | commit value value' _ ih => rw [ih (by simpa using plain)]
  | shared => simp at plain
  | absent | text | number | ref => rfl

theorem isText_eq {t u : Term} (related : Replaces entries t u) : u.isText = t.isText := by
  cases related <;> rfl

theorem isExpression {t u : Term} (related : Replaces entries t u) (shape : t.isExpression = true) :
    u.isExpression = true := by
  have lists : ∀ {ts us : List Term}, List.Forall₂ (fun t u => ∃ _ : Replaces entries t u,
      t.isExpression = true → u.isExpression = true) ts us → (∀ t ∈ ts, t.isExpression = true) →
      ∀ u ∈ us, u.isExpression = true := by
    intro ts us inner shapes u inside
    obtain ⟨t, within, _, keeps⟩ := exists_of_forall₂ inner inside
    exact keeps (shapes t within)
  induction related using Replaces.induction with
  | vec type args args' _ ih => simpa using lists ih (by simpa using shape)
  | call func args args' _ ih => simpa using lists ih (by simpa using shape)
  | raw parts parts' _ ih =>
    simp only [Term.isExpression, areParts_eq, List.all_eq_true, Bool.or_eq_true] at shape ⊢
    intro u inside
    obtain ⟨t, within, related, keeps⟩ := exists_of_forall₂ ih inside
    rw [related.isText_eq]
    exact (shape t within).imp_right keeps
  | swizzle components base base' _ ih => simpa using ih (by simpa using shape)
  | define | commit | absent | text => simp at shape
  | number | ref | shared => rfl

theorem isStatement {t u : Term} (related : Replaces entries t u) (shape : t.isStatement = true) :
    u.isStatement = true := by
  cases related with
  | define name type inner => exact inner.isExpression shape
  | commit inner => exact inner.isExpression shape
  | _ => cases shape

end Replaces

end ShaderFlow.Term
