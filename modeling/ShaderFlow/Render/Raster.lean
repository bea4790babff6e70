import ShaderFlow.Render.Sample

set_option autoImplicit false

namespace ShaderFlow

structure Raster where
  form : SampleForm
  shape : List Nat
  samples : List Sample
  deriving Inhabited

namespace Raster

/-- The shape and the leaves of a value that is no list. Where texts are spelled, one that is no
single character is a list of characters. -/
def leaf (spells : Bool) (v : Json) : List Nat × List Json :=
  match spells, v with
  | true, .str s =>
    match Text.symbols s with
    | [_] => ([], [v])
    | symbols => ([symbols.length], symbols.map fun x => .str (Text.ofSymbols [x]))
  | _, _ => ([], [v])

mutual
/-- The shape and the leaves of nested lists, which have to agree in shape. -/
def unnest (spells : Bool) : Json → Except Error (List Nat × List Json)
  | .arr items => do
    let parts ← unnestAll spells items
    match parts with
    | [] => return ([0], [])
    | (shape, _) :: rest =>
      if rest.all (·.1 == shape) then return (parts.length :: shape, parts.flatMap (·.2))
      else throw (.misuse .value "the parts differ in shape")
  | v => .ok (leaf spells v)

def unnestAll (spells : Bool) : List Json → Except Error (List (List Nat × List Json))
  | [] => .ok []
  | v :: rest => return (← unnest spells v) :: (← unnestAll spells rest)
end

/-- The most axes a raster may have. -/
def axisLimit : Nat := 64

/-- The items of lists that are all of one length. -/
def itemsOf (length : Nat) : List Json → Option (List Json)
  | [] => some []
  | .arr items :: rest =>
    if items.length = length then (itemsOf length rest).map (items ++ ·) else none
  | _ => none

/-- The shape and the leaves of values on one level, up to an axis where their lists differ. -/
def unnestAlike : Nat → List Json → List Nat × List Json
  | 0, level => ([], level)
  | axes + 1, level =>
    match level with
    | .arr items :: _ =>
      match itemsOf items.length level with
      | some next =>
        let (shape, leaves) := unnestAlike axes next
        (items.length :: shape, leaves)
      | none => ([], level)
    | _ => ([], level)

def ofJson (form : SampleForm) (data : Json) : Except Error Raster := do
  let (shape, leaves) ← match form with
    | .single ⟨.value, _, []⟩ => pure (unnestAlike axisLimit [data])
    | .single ⟨.letter, _, []⟩ => unnest true data
    | _ => unnest false data
  let form := Sample.formFor form leaves
  let shape := shape ++ form.axes
  if axisLimit < shape.length then throw (.misuse .value "too many axes")
  return { form, shape, samples := ← Sample.ofValues form leaves }

/-- The count of samples in one step along the first axis. -/
def rowLength (r : Raster) : Nat := r.shape.tail.foldl (· * ·) 1

/-- A list cut into pieces of one length. -/
def pieces {α : Type} (length : Nat) : Nat → List α → List (List α)
  | 0, _ => []
  | count + 1, xs => xs.take length :: pieces length count (xs.drop length)

/-- The bytes of a sample as the raster stores it. -/
def storedBytes (r : Raster) (s : Sample) : List UInt8 :=
  match r.form with
  | .single field => s.bytes field
  | .record _ => s.bytes default

/-- The bytes of all samples, the rows from the last one up. -/
def bytesUpward (r : Raster) : List UInt8 :=
  let rows := pieces r.rowLength (r.shape.headD 0) r.samples
  let samples := rows.reverse.flatten
  match r.form with
  | .single ⟨.packed, _, _⟩ => Sample.packedBytes 0 samples
  | _ => samples.flatMap r.storedBytes

/-- Leaves nested by a shape. -/
def nest : List Nat → List Json → Json
  | [], leaves => leaves.headD .null
  | count :: shape, leaves =>
    .arr ((pieces (shape.foldl (· * ·) 1) count leaves).map (nest shape))

end Raster

end ShaderFlow
