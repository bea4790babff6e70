import ShaderFlow.Json.Coerce
import ShaderFlow.Number.Arithmetic

set_option autoImplicit false

namespace ShaderFlow

/-- What nodes can be named by. -/
class NodeId (ι : Type) where
  toJson : ι → Json
  ofInt : Int → ι
  /-- Refuses what nothing can be named by. -/
  check : ι → Except Error Unit
  /-- The name that follows another. -/
  next : ι → Except Error ι
  least? : List ι → Except Error (Option ι)
  greatest? : List ι → Except Error (Option ι)
  /-- Puts items in the order of their names. -/
  sortBy : {α : Type} → (α → ι) → List α → Except Error (List α)

instance : NodeId Int where
  toJson := .int
  ofInt n := n
  check _ := .ok ()
  next n := .ok (n + 1)
  least? ids := .ok ids.min?
  greatest? ids := .ok ids.max?
  sortBy name items := .ok (items.mergeSort fun a b => decide (name a ≤ name b))

namespace Json

instance : BEq Json := ⟨alike⟩

/-- The code points of a text, halves of surrogate pairs among them. -/
def codes (s : String) : List Nat :=
  (Text.symbols s).map fun
    | .char c => c.toNat
    | .half n => n

/-- Whether a value stands before another one. Numbers and texts each have their order, and nothing
else does. -/
def isBefore : Json → Json → Except Error Bool
  | int m, int n => .ok (decide (m < n))
  | str s, str t => .ok (decide (codes s < codes t))
  | v, w =>
    match Number.ofJson? v, Number.ofJson? w with
    | some a, some b => .ok (a.lt b)
    | _, _ => .error (.misuse .shape
        s!"'<' not supported between instances of '{v.formName}' and '{w.formName}'")

/-- Puts an item behind those of a sorted list whose names stand before its own. -/
def insertBy {α : Type} (name : α → Json) (a : α) : List α → Except Error (List α)
  | [] => .ok [a]
  | b :: rest => do
    if ← isBefore (name b) (name a) then return b :: (← insertBy name a rest)
    else return a :: b :: rest

/-- Puts items in the order of their names. Those of one name keep their order. -/
def sortBy {α : Type} (name : α → Json) (items : List α) : Except Error (List α) :=
  items.foldrM (insertBy name) []

/-- The first of the values that no other stands before. -/
def least? : List Json → Except Error (Option Json)
  | [] => .ok none
  | v :: vs => some <$> vs.foldlM (fun best v => return if ← isBefore v best then v else best) v

/-- The first of the values that stand before no other. -/
def greatest? : List Json → Except Error (Option Json)
  | [] => .ok none
  | v :: vs => some <$> vs.foldlM (fun best v => return if ← isBefore best v then v else best) v

/-- The value that is one more. -/
def successor (v : Json) : Except Error Json :=
  match Number.ofJson? v with
  | some a => return (← a.add (.int 1)).toJson
  | none => .error (.misuse .shape s!"nothing can be added to '{v.formName}'")

end Json

instance : NodeId Json where
  toJson v := v
  ofInt := .int
  check v := v.asLabel.map fun _ => ()
  next := Json.successor
  least? := Json.least?
  greatest? := Json.greatest?
  sortBy := Json.sortBy

end ShaderFlow
