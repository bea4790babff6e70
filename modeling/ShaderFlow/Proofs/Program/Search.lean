import ShaderFlow.Proofs.Program.Table
import ShaderFlow.Proofs.Sequence

set_option autoImplicit false

namespace ShaderFlow

namespace Definition

/-- Each definition comes after those of all names it refers to. -/
abbrev InOrder (ds : List Definition) : Prop := Sequenced name (fun d n => n ∈ d.init.names) ds

/-- References lead from a definition of an ordered list to earlier ones only, where each name of
the list has one definition. -/
theorem InOrder.mem_front {known ds front back : List Definition} {d : Definition}
    (inOrder : InOrder ds) (unique : ∀ d ∈ ds, ∀ e ∈ known, e.name = d.name → e = d)
    (split : ds = front ++ d :: back) {n : String}
    (path : Relation.TransGen (Refers known) d.name n) : n ∈ front.map name := by
  have direct : ∀ front d back, ds = front ++ d :: back → ∀ n, Refers known d.name n →
      n ∈ front.map name := by
    rintro front d back split n ⟨e, member, same, refers⟩
    obtain rfl := unique d (by simp [split]) e member same
    exact inOrder front e back split n refers
  induction path with
  | single refers => exact direct front d back split _ refers
  | tail _ refers ih =>
    obtain ⟨e, member, rfl⟩ := List.mem_map.mp ih
    obtain ⟨before, after, rfl⟩ := List.append_of_mem member
    have earlier := direct before e (after ++ d :: back) (by simp [split]) _ refers
    rw [List.map_append]
    exact List.mem_append_left _ earlier

theorem InOrder.not_cyclic {known ds : List Definition} (inOrder : InOrder ds)
    (nodup : (ds.map name).Nodup) (unique : ∀ d ∈ ds, ∀ e ∈ known, e.name = d.name → e = d)
    {n : String} (member : n ∈ ds.map name) : ¬ Relation.TransGen (Refers known) n n := by
  intro cycle
  obtain ⟨d, inside, rfl⟩ := List.mem_map.mp member
  obtain ⟨front, back, split⟩ := List.append_of_mem inside
  have again := inOrder.mem_front unique split cycle
  rw [split, List.map_append, List.map_cons] at nodup
  exact (List.nodup_append.mp nodup).2.2 _ again _ (by simp) rfl

variable {ds : List Definition} {roots : List String}

theorem Reached.root {n : String} (member : n ∈ roots) : Reached ds roots n :=
  ⟨n, member, .refl⟩

theorem Reached.step {a b : String} (reached : Reached ds roots a) (refers : Refers ds a b) :
    Reached ds roots b := by
  obtain ⟨root, member, path⟩ := reached
  exact ⟨root, member, path.tail refers⟩

/-- A set of names that holds the roots and is closed under references holds all reached names. -/
theorem Reached.mem_of_closed {names : List String} (start : ∀ n ∈ roots, n ∈ names)
    (closed : ∀ a ∈ names, ∀ b, Refers ds a b → b ∈ names) {n : String}
    (reached : Reached ds roots n) : n ∈ names := by
  obtain ⟨root, member, path⟩ := reached
  induction path with
  | refl => exact start root member
  | tail _ refers ih => exact closed _ ih _ refers

/-- What a resolution gives: exactly the reached definitions, each once and in order. -/
structure Resolves (known : List Definition) (roots : List String) (ds : List Definition) :
    Prop where
  nodup : (ds.map name).Nodup
  subset : ds ⊆ known
  inOrder : InOrder ds
  exact : ∀ n, n ∈ ds.map name ↔ Reached known roots n

/-- Why a resolution fails. -/
inductive Fault (known : List Definition) (roots : List String) : Error → Prop
  | undefined {n : String} (reached : Reached known roots n) (missing : ∀ d ∈ known, d.name ≠ n) :
      Fault known roots (.undefinedVariable n)
  | cyclic {n : String} (reached : Reached known roots n)
      (cycle : Relation.TransGen (Refers known) n n) : Fault known roots (.selfDependent n)
  | misshapen {d : Definition} {reason : Error} (member : d ∈ known)
      (failed : d.init.refs = .error reason) : Fault known roots reason

namespace Resolves

variable {known all : List Definition}

theorem defined (result : Resolves known roots ds) {n : String} (reached : Reached known roots n) :
    ∃ d ∈ known, d.name = n := by
  obtain ⟨d, member, named⟩ := List.mem_map.mp ((result.exact n).mpr reached)
  exact ⟨d, result.subset member, named⟩

theorem not_cyclic (result : Resolves known roots ds) (table : Tabulates known all) {n : String}
    (reached : Reached known roots n) : ¬ Relation.TransGen (Refers known) n n :=
  result.inOrder.not_cyclic result.nodup
    (fun _ member _ inside => table.eq_of_name inside (result.subset member))
    ((result.exact n).mpr reached)

end Resolves

end Definition

namespace Resolution

open Definition

/-- The name a visit is about. -/
def Visit.name : Visit → String
  | .enter n => n
  | .leave d => d.name

def Visit.left? : Visit → Option Definition
  | .enter _ => none
  | .leave d => some d

/-- The definitions that the search will place on its way back, the next first. -/
def underWay (stack : List Visit) : List Definition := stack.filterMap Visit.left?

/-- When the visits of a stack are done in turn, every definition is left after all it refers to,
and the roots are all settled in the end. -/
def Awaits (roots : List String) : List String → List Visit → Prop
  | settled, [] => ∀ n ∈ roots, n ∈ settled
  | settled, v :: rest =>
    (∀ d, v = .leave d → ∀ n ∈ d.init.names, n ∈ settled) ∧ Awaits roots (v.name :: settled) rest

theorem Awaits.mono {roots settled settled' : List String} {stack : List Visit}
    (awaits : Awaits roots settled stack) (more : ∀ n ∈ settled, n ∈ settled') :
    Awaits roots settled' stack := by
  induction stack generalizing settled settled' with
  | nil => exact fun n member => more n (awaits n member)
  | cons v rest ih =>
    refine ⟨fun d same n member => more n (awaits.1 d same n member), ih awaits.2 ?_⟩
    intro n member
    rcases List.mem_cons.mp member with rfl | member
    · simp
    · exact List.mem_cons_of_mem _ (more n member)

/-- Entering some names first settles them for the rest of the stack. -/
theorem awaits_enter_append {roots settled names : List String} {stack : List Visit} :
    Awaits roots settled (names.map .enter ++ stack) ↔
      Awaits roots (names.reverse ++ settled) stack := by
  induction names generalizing settled with
  | nil => rfl
  | cons n names ih =>
    have rest := @ih (n :: settled)
    simp only [List.map_cons, List.cons_append, Awaits, Visit.name, reduceCtorEq, false_implies,
      implies_true, true_and, rest, List.reverse_cons, List.append_assoc, List.nil_append]

/-- The state of a search from some roots. A pending visit was asked for by every definition below
it on the stack, so a name met again while it is under way lies on a cycle. -/
structure Searching (known : List Definition) (roots active : List String)
    (placed : List Definition) (stack : List Visit) : Prop where
  active_eq : active = (underWay stack).map Definition.name
  nodup : (active ++ placed.map Definition.name).Nodup
  underWay_subset : underWay stack ⊆ known
  placed_subset : placed ⊆ known
  inOrder : InOrder placed
  visitsReached : ∀ v ∈ stack, Reached known roots v.name
  placedReached : ∀ d ∈ placed, Reached known roots d.name
  chain : stack.Pairwise fun upper lower =>
    ∀ d, lower = .leave d → Relation.TransGen (Refers known) d.name upper.name
  awaits : Awaits roots (placed.map Definition.name) stack

namespace Searching

variable {known placed : List Definition} {roots active : List String} {stack : List Visit}

theorem start (known : List Definition) (roots : List String) :
    Searching known roots [] [] (roots.map .enter) := by
  have entering : underWay (roots.map .enter) = [] := by
    simp [underWay, Visit.left?]
  refine ⟨by simp [entering], by simp, by simp [entering], by simp, .nil, ?_, by simp, ?_, ?_⟩
  · intro v member
    obtain ⟨n, inside, rfl⟩ := List.mem_map.mp member
    exact .root inside
  · rw [List.pairwise_map]
    exact List.pairwise_of_forall (by simp)
  · rw [← List.append_nil (roots.map Visit.enter), awaits_enter_append]
    intro n member
    simp [member]

theorem leave {d : Definition} (inv : Searching known roots active placed (.leave d :: stack)) :
    Searching known roots (without active d.name) (placed ++ [d]) stack := by
  obtain ⟨active_eq, nodup, subset, placed_subset, inOrder, visits, reached, chain, awaits⟩ := inv
  have split : active = d.name :: (underWay stack).map Definition.name := active_eq
  rw [split] at nodup
  have fresh : d.name ∉ (underWay stack).map Definition.name := by
    intro again
    exact (List.nodup_cons.mp nodup).1 (List.mem_append_left _ again)
  have rest : without active d.name = (underWay stack).map Definition.name := by
    rw [split, without, List.filter_cons_of_neg (by simp), List.filter_eq_self]
    intro n member
    simp only [bne_iff_ne, ne_eq]
    rintro rfl
    exact fresh member
  refine ⟨rest, ?_, ?_, ?_, inOrder.snoc (awaits.1 d rfl), ?_, ?_, ?_, ?_⟩
  · rw [rest, List.map_append, ← List.append_assoc]
    exact (List.perm_append_singleton _ _).nodup_iff.mpr nodup
  · exact fun e member => subset (List.mem_cons_of_mem d member)
  · intro e member
    rcases List.mem_append.mp member with member | last
    · exact placed_subset member
    · rw [List.mem_singleton.mp last]
      exact subset List.mem_cons_self
  · exact fun v member => visits v (List.mem_cons_of_mem _ member)
  · intro e member
    rcases List.mem_append.mp member with member | last
    · exact reached e member
    · rw [List.mem_singleton.mp last]
      exact visits _ List.mem_cons_self
  · exact (List.pairwise_cons.mp chain).2
  · refine awaits.2.mono ?_
    intro n member
    rcases List.mem_cons.mp member with rfl | member
    · simp [Visit.name]
    · simp only [List.map_append, List.mem_append, member, true_or]

/-- A name whose definition is placed already is passed over. -/
theorem skip {n : String} (inv : Searching known roots active placed (.enter n :: stack))
    (done : n ∈ placed.map Definition.name) : Searching known roots active placed stack where
  active_eq := inv.active_eq
  nodup := inv.nodup
  underWay_subset := inv.underWay_subset
  placed_subset := inv.placed_subset
  inOrder := inv.inOrder
  visitsReached := fun v member => inv.visitsReached v (List.mem_cons_of_mem _ member)
  placedReached := inv.placedReached
  chain := (List.pairwise_cons.mp inv.chain).2
  awaits := by
    refine inv.awaits.2.mono ?_
    intro m member
    rcases List.mem_cons.mp member with rfl | member
    · exact done
    · exact member

theorem enter {d : Definition}
    (inv : Searching known roots active placed (.enter d.name :: stack)) (member : d ∈ known)
    (idle : d.name ∉ active) (missing : d.name ∉ placed.map Definition.name) :
    Searching known roots (d.name :: active) placed
      (d.init.names.map .enter ++ .leave d :: stack) := by
  have refers : ∀ n ∈ d.init.names, Refers known d.name n :=
    fun n inside => ⟨d, member, rfl, inside⟩
  have here := inv.visitsReached _ List.mem_cons_self
  have split : underWay (d.init.names.map .enter ++ .leave d :: stack) = d :: underWay stack := by
    simp [underWay, Visit.left?]
  obtain ⟨above, below⟩ := List.pairwise_cons.mp inv.chain
  refine ⟨by rw [split, inv.active_eq]; rfl, ?_, ?_, inv.placed_subset, inv.inOrder, ?_,
    inv.placedReached, ?_, ?_⟩
  · exact List.nodup_cons.mpr ⟨by simp [idle, missing], inv.nodup⟩
  · rw [split]
    exact List.cons_subset.mpr ⟨member, inv.underWay_subset⟩
  · intro v inside
    rcases List.mem_append.mp inside with inside | inside
    · obtain ⟨n, found, rfl⟩ := List.mem_map.mp inside
      exact here.step (refers n found)
    · rcases List.mem_cons.mp inside with rfl | inside
      · exact here
      · exact inv.visitsReached v (List.mem_cons_of_mem _ inside)
  · rw [List.pairwise_append, List.pairwise_map]
    refine ⟨List.pairwise_of_forall (by simp), List.pairwise_cons.mpr ⟨above, below⟩, ?_⟩
    intro upper inside lower inStack e same
    obtain ⟨n, found, rfl⟩ := List.mem_map.mp inside
    rcases List.mem_cons.mp inStack with rfl | inStack
    · cases same
      exact .single (refers n found)
    · exact (above lower inStack e same).tail (refers n found)
  · rw [awaits_enter_append]
    refine ⟨?_, inv.awaits.2.mono ?_⟩
    · rintro e same n found
      cases same
      simp [found]
    · intro n inside
      rcases List.mem_cons.mp inside with rfl | inside
      · exact List.mem_cons_self
      · exact List.mem_cons_of_mem _ (List.mem_append_right _ inside)

theorem cyclic {n : String} (inv : Searching known roots active placed (.enter n :: stack))
    (again : n ∈ active) : Relation.TransGen (Refers known) n n := by
  rw [inv.active_eq] at again
  obtain ⟨d, member, rfl⟩ := List.mem_map.mp again
  obtain ⟨v, inStack, left⟩ := List.mem_filterMap.mp member
  cases v with
  | enter m => cases left
  | leave e =>
    cases left
    rcases List.mem_cons.mp inStack with same | inStack
    · cases same
    · exact (List.pairwise_cons.mp inv.chain).1 _ inStack d rfl

theorem finish {all : List Definition} (table : Tabulates known all)
    (inv : Searching known roots active placed []) : Resolves known roots placed := by
  refine ⟨(List.nodup_append.mp inv.nodup).2.1, inv.placed_subset, inv.inOrder, fun n => ⟨?_, ?_⟩⟩
  · intro member
    obtain ⟨d, inside, rfl⟩ := List.mem_map.mp member
    exact inv.placedReached d inside
  · refine Reached.mem_of_closed inv.awaits ?_
    rintro a member b ⟨e, inKnown, rfl, refers⟩
    obtain ⟨d, inside, same⟩ := List.mem_map.mp member
    obtain rfl := table.eq_of_name (inv.placed_subset inside) inKnown same
    exact inv.inOrder.mem_of_needs inside refers

end Searching

theorem isPlaced_iff {placed : List Definition} {n : String} :
    isPlaced placed n = true ↔ n ∈ placed.map Definition.name := by
  simp [isPlaced]

/-- A search that goes by the invariant resolves its roots or finds a fault. -/
theorem search_cases {known all : List Definition} (table : Tabulates known all)
    {roots active : List String} {placed : List Definition} {stack : List Visit}
    (inv : Searching known roots active placed stack) :
    (∃ ds, search known active placed stack = .ok ds ∧ Resolves known roots ds) ∨
      ∃ reason, search known active placed stack = .error reason ∧ Fault known roots reason := by
  fun_induction search known active placed stack with
  | case1 active placed => exact .inl ⟨placed, rfl, inv.finish table⟩
  | case2 active placed d stack ih => exact ih inv.leave
  | case3 active placed n stack done ih => exact ih (inv.skip (isPlaced_iff.mp done))
  | case4 active placed n stack _ again =>
    have cycle := inv.cyclic (by simpa using again)
    exact .inr ⟨_, rfl, .cyclic (inv.visitsReached _ List.mem_cons_self) cycle⟩
  | case5 active placed n stack _ _ missing =>
    refine .inr ⟨_, rfl, .undefined (inv.visitsReached _ List.mem_cons_self) ?_⟩
    intro d member
    simpa using List.find?_eq_none.mp missing d member
  | case6 active placed n stack _ _ d found reason failed =>
    exact .inr ⟨reason, rfl, .misshapen (List.mem_of_find?_eq_some found) failed⟩
  | case7 active placed n stack notPlaced idle d found names read ih =>
    obtain ⟨member, rfl⟩ := table.definitionOf?_eq_some_iff.mp found
    obtain rfl := Term.names_of_refs read
    exact ih (inv.enter member (by simpa using idle)
      fun inside => notPlaced (isPlaced_iff.mpr inside))

end Resolution

end ShaderFlow
