import ShaderFlow.Json.Coerce
import ShaderFlow.Json.Printer

set_option autoImplicit false

/-
Members are named by texts. Where a name is another value that can name something, it is spelled
behind a mark, which no text begins with. Such names are the same when their values count as one,
and the first spelling stays.
-/

namespace ShaderFlow

namespace Json

/-- What a value that can name something has in common with all values that count as the same. -/
def identity : Json → String
  | bool b => toString (ofFlag b)
  | float x =>
    match x.truncate? with
    | some n => if x.isInt n then toString n else leafText (float x)
    | none => leafText (float x)
  | v => v.leafText

/-- The name of a member that a value spells. -/
def toName : Json → String
  | str s => s
  | v => (SpelledName.mk v.identity v.leafText).name

end Json

namespace Members

/-- The name under which a value finds its member: one that is there, if it counts as the same. -/
def nameFor (members : Members) (key : Json) : Except Error String := do
  let name := (← key.asLabel).toName
  return ((members.find? fun m => Json.sameName m.1 name).map (·.1)).getD name

/-- Gives the member that a value names another value. -/
def insertAt (members : Members) (key value : Json) : Except Error Members := do
  return insert members (← members.nameFor key) value

/-- Takes in one pair of a name and a value. -/
def insertPair (members : Members) (pair : Json) : Except Error Members := do
  match ← pair.items with
  | [key, value] => members.insertAt key value
  | items => throw (.misuse .value
      s!"dictionary update sequence element has length {items.length}; 2 is required")

/-- Takes in the changes that a value lists: the members of an object, or pairs of a name and a
value. Nothing and whatever is empty changes nothing. -/
def update (members : Members) (changes : Json) : Except Error Members :=
  if !changes.isTruthy then .ok members
  else
    match changes with
    | .obj more => .ok (members.merge more)
    | _ => do (← changes.items).foldlM insertPair members

end Members

end ShaderFlow
