import ShaderFlow.Proofs.Graph.Invariant

set_option autoImplicit false

/-
An edit makes its change only after all its checks, and then reports it. So a refused edit leaves
the graph as it was, unless the report itself failed: it writes down the ids that the change is
about, and an id with too many digits cannot be written. Then the change stays.
-/

namespace ShaderFlow

/-- The ids that an edit writes down after its change. -/
inductive Edit.Spells (g : Graph Int) : Edit → Int → Prop
  | added {kind position data : Json} {wanted : Option Int} {id : Int}
      (given : g.newId wanted = .ok id) : Spells g (.add kind position data wanted) id
  | cloned {model id : Int} {offset : Json} (given : g.newId none = .ok id) :
      Spells g (.clone model offset) id
  | removed (id : Int) : Spells g (.remove id) id
  | source (d : Declaration Int) : Spells g (.connect d) d.source
  | target (d : Declaration Int) : Spells g (.connect d) d.target

namespace Graph

variable {g : Graph Int}

/-- The new graph and the failure of an edit that writes some ids down: nothing changed, or one of
the ids, which a node has or had, cannot be written. -/
def Leaves (g : Graph Int) (spelled : Int → Prop) (after : Graph Int) (e : Error) : Prop :=
  after = g ∨ e = unwritable ∧ ∃ id, spelled id ∧ (id ∈ g.ids ∨ id ∈ after.ids) ∧ ¬ Writable id

theorem eq_unwritable_of_writing {α : Type} {ids : List Int} {a : α} {e : Error}
    (failed : writing ids (.ok a) = .error e) : e = unwritable ∧ ∃ id ∈ ids, ¬ Writable id := by
  rcases writing_cases ids (.ok a) with ⟨_, same⟩ | ⟨long, same⟩
  · rw [same] at failed
    cases failed
  · rw [same] at failed
    exact ⟨(Except.error.inj failed).symm, long⟩

theorem addNode_leaves {kind position data : Json} {wanted : Option Int} {e : Error}
    (refused : (g.addNode kind position data wanted).2.outcome = .error e) :
    g.Leaves (fun id => g.newId wanted = .ok id) (g.addNode kind position data wanted).1 e := by
  rcases g.addNode_cases kind position data wanted with
    ⟨cause, same⟩ | ⟨n, given, _, _, added, reported⟩
  · rw [same]
    exact .inl rfl
  · rw [reported] at refused
    obtain ⟨known, id, member, long⟩ := eq_unwritable_of_writing refused
    rw [List.mem_singleton.mp member] at long
    exact .inr ⟨known, n.id, given, .inr (by simp [added, ids]), long⟩

theorem cloneNode_leaves {id : Int} {offset : Json} {e : Error}
    (refused : (g.cloneNode id offset).2.outcome = .error e) :
    g.Leaves (fun id => g.newId none = .ok id) (g.cloneNode id offset).1 e := by
  revert refused
  unfold cloneNode
  dsimp only
  split
  · exact fun _ => .inl rfl
  · exact addNode_leaves

theorem removeNode_leaves {id : Int} {e : Error}
    (refused : (g.removeNode id).2.outcome = .error e) :
    g.Leaves (· = id) (g.removeNode id).1 e := by
  rcases g.removeNode_cases id with ⟨cause, same⟩ | ⟨n, present, _, reported⟩
  · rw [same]
    exact .inl rfl
  · rw [reported] at refused
    obtain ⟨known, other, member, long⟩ := eq_unwritable_of_writing refused
    obtain rfl := List.mem_singleton.mp member
    obtain ⟨inside, named⟩ := node_eq_ok present
    exact .inr ⟨known, other, rfl, .inl (List.mem_map.mpr ⟨n, inside, named⟩), long⟩

theorem connect_leaves {d : Declaration Int} {e : Error}
    (refused : (g.connect d).2.outcome = .error e) :
    g.Leaves (fun id => id = d.source ∨ id = d.target) (g.connect d).1 e := by
  rcases g.connect_cases d with ⟨cause, same⟩ | ⟨l, _, same⟩ | ⟨l, _, joins, ends, _, reported⟩
  · rw [same]
    exact .inl rfl
  · rw [same]
    exact .inl rfl
  · rw [reported] at refused
    obtain ⟨known, id, member, long⟩ := eq_unwritable_of_writing refused
    have spelled : id = d.source ∨ id = d.target := by simpa using member
    refine .inr ⟨known, id, spelled, .inl ?_, long⟩
    obtain ⟨_, _, _, _, ⟨m, inside, source, _⟩, ⟨n, inside', target, _⟩, _⟩ := joins
    rcases spelled with rfl | rfl
    · exact List.mem_map.mpr ⟨m, inside, source.trans ends.1⟩
    · exact List.mem_map.mpr ⟨n, inside', target.trans ends.2⟩

theorem after_leaves {α : Type} {work : Logged (Graph Int × α)} {e : Error} (spelled : Int → Prop)
    (refused : (g.after work).2.outcome = .error e) : g.Leaves spelled (g.after work).1 e := by
  revert refused
  unfold after
  split
  · exact fun refused => nomatch refused
  · exact fun _ => .inl rfl

theorem outcome_of_report {α : Type} {result : Graph Int × Logged α} {e : Error}
    (refused : (perform.report result).2 = .error e) : result.2.outcome = .error e := by
  unfold perform.report at refused
  cases outcome : result.2.outcome with
  | ok a =>
    rw [outcome] at refused
    cases refused
  | error cause =>
    rw [outcome] at refused
    cases refused
    rfl

theorem Leaves.mono {spelled spelled' : Int → Prop} {after : Graph Int} {e : Error}
    (imp : ∀ id, spelled id → spelled' id) (leaves : g.Leaves spelled after e) :
    g.Leaves spelled' after e :=
  leaves.imp_right fun ⟨known, id, within, has, long⟩ => ⟨known, id, imp id within, has, long⟩

/-- A refused edit leaves the graph as it was, unless it could not write down an id of its change.
-/
theorem perform_leaves {edit : Edit} {e : Error} (refused : (g.perform edit).2 = .error e) :
    g.Leaves (edit.Spells g) (g.perform edit).1 e := by
  cases edit with
  | add kind position data wanted =>
    exact (addNode_leaves (outcome_of_report refused)).mono fun _ => .added
  | clone id offset => exact (cloneNode_leaves (outcome_of_report refused)).mono fun _ => .cloned
  | remove id =>
    refine (removeNode_leaves (outcome_of_report refused)).mono ?_
    rintro _ rfl
    exact .removed _
  | connect d =>
    refine (connect_leaves (outcome_of_report refused)).mono ?_
    rintro _ (rfl | rfl)
    · exact .source d
    · exact .target d
  | move | disconnect | load => exact after_leaves _ (outcome_of_report refused)

/-- An id that is given to a new node was free. -/
theorem addNode_fresh {kind position data : Json} {wanted : Option Int} {n : Node Int}
    (success : (g.addNode kind position data wanted).2.outcome = .ok n) : n.id ∉ g.ids := by
  rcases g.addNode_cases kind position data wanted with
    ⟨cause, same⟩ | ⟨m, given, _, _, _, reported⟩
  · rw [same] at success
    cases success
  · rcases writing_cases [m.id] (.ok m) with ⟨_, answer⟩ | ⟨_, failed⟩
    · rw [reported, answer] at success
      cases success
      exact newId_fresh given
    · rw [reported, failed] at success
      cases success

theorem cloneNode_fresh {id : Int} {offset : Json} {n : Node Int}
    (success : (g.cloneNode id offset).2.outcome = .ok n) : n.id ∉ g.ids := by
  revert success
  unfold cloneNode
  dsimp only
  split
  · exact fun success => nomatch success
  · exact addNode_fresh

end Graph

end ShaderFlow
