import Mathlib.Data.List.Nodup
import ShaderFlow.Json.Key
import ShaderFlow.Proofs.Outcome

set_option autoImplicit false

/-
Taking in changes keeps the names that are there in their places and puts new ones behind them, so
no name comes twice. What came from some members by changes comes from them again when it is taken
in as a whole.
-/

namespace ShaderFlow.Members

/-- The names of members. -/
def names (members : Members) : List String := members.map Prod.fst

theorem names_insert (members : Members) (key : String) (value : Json) :
    names (insert members key value) =
      if key ∈ names members then names members else names members ++ [key] := by
  induction members with
  | nil => rfl
  | cons entry rest ih =>
    obtain ⟨k, v⟩ := entry
    by_cases here : k = key
    · simp [insert, names, here]
    · have apart : (k == key) = false := by simpa using here
      have other : key ≠ k := Ne.symm here
      simp only [insert, apart, Bool.false_eq_true, if_false]
      show k :: names (insert rest key value) = _
      rw [ih]
      by_cases there : key ∈ names rest
      · simp [names, other, show key ∈ rest.map Prod.fst from there]
      · simp [names, other, show key ∉ rest.map Prod.fst from there]

/-- Names behind others, none of them twice. -/
def Extends (first second : Members) : Prop := names first <+: names second ∧ (names second).Nodup

theorem Extends.refl {members : Members} (nodup : (names members).Nodup) :
    Extends members members :=
  ⟨List.prefix_refl _, nodup⟩

theorem Extends.insert {first second : Members} (ext : Extends first second) (key : String)
    (value : Json) : Extends first (insert second key value) := by
  obtain ⟨within, nodup⟩ := ext
  unfold Extends
  rw [names_insert]
  split
  · exact ⟨within, nodup⟩
  · rename_i fresh
    refine ⟨within.trans (List.prefix_append _ _), ?_⟩
    exact (List.perm_append_singleton _ _).nodup_iff.mpr (List.nodup_cons.mpr ⟨fresh, nodup⟩)

theorem Extends.merge {first second : Members} (ext : Extends first second) (changes : Members) :
    Extends first (merge second changes) := by
  unfold Members.merge
  induction changes generalizing second with
  | nil => exact ext
  | cons entry rest ih => exact ih (ext.insert entry.1 entry.2)

theorem Extends.insertPair {first second third : Members} {pair : Json} (ext : Extends first second)
    (success : insertPair second pair = .ok third) : Extends first third := by
  obtain ⟨items, _, success⟩ := Outcome.bind_eq_ok_iff.mp success
  split at success
  · obtain ⟨name, _, same⟩ := Outcome.bind_eq_ok_iff.mp success
    cases same
    exact ext.insert _ _
  · cases success

theorem Extends.insertPairs {pairs : List Json} {first second third : Members}
    (ext : Extends first second) (success : pairs.foldlM Members.insertPair second = .ok third) :
    Extends first third := by
  induction pairs generalizing second with
  | nil =>
    cases success
    exact ext
  | cons pair rest ih =>
    rw [List.foldlM_cons, Outcome.bind_eq_ok_iff] at success
    obtain ⟨next, here, there⟩ := success
    exact ih (ext.insertPair here) there

/-- Taking in changes extends the members. -/
theorem extends_update {members changed : Members} {changes : Json}
    (nodup : (names members).Nodup) (success : update members changes = .ok changed) :
    Extends members changed := by
  have start := Extends.refl nodup
  unfold update at success
  split at success
  · cases success
    exact start
  · split at success
    · cases success
      exact start.merge _
    · obtain ⟨pairs, _, success⟩ := Outcome.bind_eq_ok_iff.mp success
      exact start.insertPairs success

theorem insert_append_self {front rest : Members} {key : String} {old value : Json}
    (fresh : key ∉ names front) :
    insert (front ++ (key, old) :: rest) key value = front ++ (key, value) :: rest := by
  induction front with
  | nil => simp [insert]
  | cons entry front ih =>
    obtain ⟨k, v⟩ := entry
    simp only [names, List.map_cons, List.mem_cons, not_or] at fresh
    have apart : (k == key) = false := by simpa using Ne.symm fresh.1
    simp only [List.cons_append, insert, apart, Bool.false_eq_true, if_false]
    rw [ih fresh.2]

theorem insert_of_fresh {front : Members} {key : String} {value : Json}
    (fresh : key ∉ names front) :
    insert front key value = front ++ [(key, value)] := by
  induction front with
  | nil => rfl
  | cons entry front ih =>
    obtain ⟨k, v⟩ := entry
    simp only [names, List.map_cons, List.mem_cons, not_or] at fresh
    have apart : (k == key) = false := by simpa using Ne.symm fresh.1
    simp only [List.cons_append, insert, apart, Bool.false_eq_true, if_false]
    rw [ih fresh.2]

/-- Taking in members in turn replaces the old values of the first ones and puts the others behind.
-/
theorem merge_append {front stale coming : Members} (within : names stale <+: names coming)
    (nodup : (names (front ++ coming)).Nodup) :
    merge (front ++ stale) coming = front ++ coming := by
  induction coming generalizing front stale with
  | nil =>
    have empty : stale = [] := by simpa [names] using within
    rw [empty]
    rfl
  | cons entry rest ih =>
    obtain ⟨key, value⟩ := entry
    have fresh : key ∉ names front := by
      intro member
      simp only [names, List.map_append, List.map_cons] at nodup
      exact List.disjoint_of_nodup_append nodup member List.mem_cons_self
    have later : (names ((front ++ [(key, value)]) ++ rest)).Nodup := by
      simpa [List.append_assoc] using nodup
    have step : merge (front ++ stale) ((key, value) :: rest) =
        merge (insert (front ++ stale) key value) rest := rfl
    rw [step]
    cases stale with
    | nil =>
      rw [List.append_nil, insert_of_fresh fresh]
      have rested : merge ((front ++ [(key, value)]) ++ []) rest =
          (front ++ [(key, value)]) ++ rest :=
        ih List.nil_prefix later
      simpa using rested
    | cons old stale =>
      obtain ⟨k, w⟩ := old
      obtain ⟨named, inner⟩ := List.cons_prefix_cons.mp within
      obtain rfl : k = key := named
      rw [insert_append_self fresh]
      have rested : merge ((front ++ [(k, value)]) ++ stale) rest =
          (front ++ [(k, value)]) ++ rest :=
        ih inner later
      simpa using rested

/-- Members that extend others come from them when they are taken in. -/
theorem update_of_extends {members changed : Members} (ext : Extends members changed) :
    update members (.obj changed) = .ok changed := by
  cases changed with
  | nil =>
    have empty : members = [] := by simpa [names] using ext.1
    rw [empty]
    rfl
  | cons entry rest =>
    have whole : merge ([] ++ members) (entry :: rest) = [] ++ entry :: rest :=
      merge_append ext.1 ext.2
    rw [List.nil_append, List.nil_append] at whole
    show Except.ok (merge members (entry :: rest)) = _
    rw [whole]

end ShaderFlow.Members
