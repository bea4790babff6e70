import ShaderFlow.Term.Traverse

set_option autoImplicit false

namespace ShaderFlow

structure Definition where
  name : String
  type : String
  init : Term
  deriving Inhabited

namespace Definition

def alike (d e : Definition) : Bool := d.name == e.name && d.type == e.type && d.init.alike e.init

def toTerm (d : Definition) : Term := .define d.name d.type d.init

def ofTerm? : Term → Option Definition
  | .define name type init => some ⟨name, type, init⟩
  | _ => none

/-- Adds a definition to a table. Of two that count as one the later stays, in the place of the
earlier; two others of one name are refused. -/
def addTo (d : Definition) : List Definition → Except Error (List Definition)
  | [] => .ok [d]
  | e :: rest =>
    if e.name = d.name then
      if e.alike d then .ok (d :: rest) else .error (.duplicateVariable d.name)
    else return e :: (← d.addTo rest)

/-- The definitions of a statement list by name. -/
def table (statements : List Term) : Except Error (List Definition) :=
  (statements.filterMap ofTerm?).foldlM (fun known d => d.addTo known) []

end Definition

namespace Resolution

/-- A pending step of the search: entering a name, or leaving a definition whose references are
all placed. -/
inductive Visit where
  | enter (name : String)
  | leave (definition : Definition)

def isPlaced (placed : List Definition) (name : String) : Bool := placed.any (·.name == name)

/-- A name is seen when its definition is placed or under way. -/
def seen (active : List String) (placed : List Definition) (name : String) : Bool :=
  active.contains name || isPlaced placed name

/-- The names under way other than one. -/
def without (active : List String) (name : String) : List String := active.filter (· != name)

/-- The definition of a name. -/
def definitionOf? (known : List Definition) (name : String) : Option Definition :=
  known.find? (·.name == name)

/-- The count of definitions that are not seen yet. -/
def unseen (known : List Definition) (active : List String) (placed : List Definition) : Nat :=
  known.countP fun d => !seen active placed d.name

theorem unseen_leave_le (known : List Definition) (active : List String)
    (placed : List Definition) (d : Definition) :
    unseen known (without active d.name) (placed ++ [d]) ≤ unseen known active placed := by
  apply List.countP_mono_left
  intro e _ fresh
  by_cases same : e.name = d.name <;> simp_all [seen, isPlaced, without]

theorem unseen_enter_le (known : List Definition) (active : List String)
    (placed : List Definition) (name : String) :
    unseen known (name :: active) placed ≤ unseen known active placed := by
  apply List.countP_mono_left
  intro e _
  simp only [seen, List.contains_cons, Bool.not_or, Bool.and_eq_true]
  exact fun fresh => ⟨fresh.1.2, fresh.2⟩

theorem unseen_enter_lt (known : List Definition) (active : List String)
    (placed : List Definition) (name : String) (d : Definition)
    (found : definitionOf? known name = some d)
    (fresh : seen active placed name = false) :
    unseen known (name :: active) placed < unseen known active placed := by
  obtain rfl : d.name = name := by simpa using List.find?_some found
  obtain ⟨front, back, rfl⟩ := List.append_of_mem (List.mem_of_find?_eq_some found)
  have before := unseen_enter_le front active placed d.name
  have behind := unseen_enter_le back active placed d.name
  have entered : seen (d.name :: active) placed d.name = true := by simp [seen]
  simp only [unseen, List.countP_append, List.countP_cons, fresh, entered] at before behind ⊢
  simp only [Bool.not_true, Bool.not_false, Bool.false_eq_true, if_true, if_false]
  omega

/-- Works off the stack. `active` holds the names under way, `placed` the definitions in their
final order. -/
def search (known : List Definition) (active : List String) (placed : List Definition)
    (stack : List Visit) : Except Error (List Definition) :=
  match stack with
  | [] => .ok placed
  | .leave d :: stack => search known (without active d.name) (placed ++ [d]) stack
  | .enter name :: stack =>
    if isPlaced placed name then search known active placed stack
    else if active.contains name then .error (.selfDependent name)
    else
      match _found : definitionOf? known name with
      | none => .error (.undefinedVariable name)
      | some d =>
        match d.init.refs with
        | .error e => .error e
        | .ok names =>
          search known (name :: active) placed (names.map .enter ++ .leave d :: stack)
termination_by (unseen known active placed, stack.length)
decreasing_by
  · have := unseen_leave_le known active placed d
    rcases Nat.lt_or_eq_of_le this with less | same
    · exact .left _ _ less
    · rw [same]; exact .right _ (by simp)
  · exact .right _ (by simp)
  · refine .left _ _ (unseen_enter_lt known active placed name d _found ?_)
    simp_all [seen]

/-- The definitions that a term reaches, each after those it refers to. -/
def resolve (known : List Definition) (t : Term) : Except Error (List Definition) := do
  let names ← t.refs
  search known [] [] (names.map .enter)

end Resolution

end ShaderFlow
