import ShaderFlow.Emit
import ShaderFlow.Json.Coerce
import ShaderFlow.Kind.Basic

set_option autoImplicit false

namespace ShaderFlow.Kind

def isPlainNumber : Json → Bool
  | .int _ | .float _ => true
  | _ => false

/-- The numbers of a list of a given length. Each fits a float and is finite. -/
def numbers (field : String) (count : Nat) (value : Json) : Except Error (List Binary64) :=
  match value with
  | .arr items =>
    if items.length = count ∧ items.all isPlainNumber then
      match items.mapM Json.toNumber with
      | .error _ => .error (.outOfRange field)
      | .ok xs => if xs.all Binary64.isFinite then .ok xs else .error (.notFinite field value)
    else .error (.notNumbers field count value)
  | _ => .error (.notNumbers field count value)

/-- The check that a field, if it is given, holds numbers. -/
def checkNumbers (field : String) (count : Nat) (data : Json) : Except Error Unit := do
  if ← data.has field then discard (numbers field count (← data.member field))

/-- The video color at an offset in pixels. -/
def textureSample (x y : Binary64) : Term :=
  let offset := .vec .vec2
    [.raw [.number x, .text s!" / {resolutionName}.x"],
      .raw [.number y, .text s!" / {resolutionName}.y"]]
  .call "texture2D" [.raw [.text videoName], .raw [.text s!"{coordinateName} + ", offset]]

def offsetDefaults : Members := [("offset", .arr [.int 0, .int 0])]

/-- The live video, shifted by a pixel offset. -/
def webcam : Kind where
  name := "Webcam"
  family := "Webcam"
  outputs := [.color "color" "color"]
  defaultData := offsetDefaults
  validate := checkNumbers "offset" 2
  worker seat data _ := do
    match ← numbers "offset" 2 (← dataValue data offsetDefaults "offset") with
    | [x, y] =>
      let name := s!"tex_{seat.label}"
      return [("color", ⟨[.define name "vec4" (textureSample x y)], .ref name⟩)]
    | _ => throw .notExpression

/-- The largest radius of a blur. -/
def maxRadius : Int := 4

def radiusDefaults : Members := [("radius", .int 1)]

/-- The check that a radius is an integer in range. Only of members it can be asked at all. -/
def checkRadius : Json → Except Error Unit
  | .obj members =>
    match (Members.get? members "radius").getD (.int 1) with
    | .int r => if 0 ≤ r ∧ r ≤ maxRadius then .ok () else .error (.badRadius (.int r))
    | value => .error (.badRadius value)
  | v => .error (.misuse .operation s!"'{v.formName}' object has no attribute 'get'")

/-- A radius as the worker takes it; truth values count as 0 and 1. -/
def radiusOf : Json → Except Error Int
  | .int r => .ok r
  | .bool b => .ok (Json.ofFlag b)
  | _ => .error (.misuse .shape "not an integer")

/-- The integers from `-r` to `r`. -/
def offsets (r : Int) : List Int := (List.range (2 * r + 1).toNat).map fun (n : Nat) => n - r

/-- A small integer as a float. -/
def smallNumber (n : Int) : Binary64 := (Binary64.ofInt? n).getD (.zero false)

/-- The shared variable that holds the video color at an offset. -/
def blurSample (dx dy : Int) : Term :=
  .shared (.tuple [.text "texture2D", .number dx, .number dy]) "vec4"
    (textureSample (smallNumber dx) (smallNumber dy)) Term.defaultStem

/-- The average over a square of offsets. -/
def blurSum (r : Int) : Term :=
  let samples := (offsets r).flatMap fun dy => (offsets r).map fun dx => blurSample dx dy
  let divisor := (smallNumber samples.length).text
  .raw (.text "(" :: samples.intersperse (.text " + ") ++ [.text s!") / {divisor}"])

def boxBlur : Kind where
  name := "Box Blur"
  family := "BoxBlur"
  outputs := [.color "color" "color"]
  defaultData := radiusDefaults
  validate := checkRadius
  worker _ data _ := do
    let r ← radiusOf (← dataValue data radiusDefaults "radius")
    return [("color", .ofValue (blurSum r))]

def coolColor : Kind where
  name := "Cool Color"
  family := "CoolColor"
  outputs := [.color "color" "color"]
  worker _ _ _ :=
    .ok [("color", .ofValue (.color (.tenths 0) (.tenths 7) (.tenths 7) (.tenths 10)))]

def whiteDefaults : Members :=
  [("color", .arr (List.replicate 4 (.float (Binary64.tenths 10))))]

/-- A fixed color from the node's data. -/
def constantColor : Kind where
  name := "Color"
  family := "ConstantColor"
  outputs := [.color "color" "color"]
  defaultData := whiteDefaults
  validate := checkNumbers "color" 4
  worker _ data _ := do
    let xs ← numbers "color" 4 (← dataValue data whiteDefaults "color")
    return [("color", .ofValue (.vec .vec4 (xs.map .number)))]

def zeroDefaults : Members := [("value", .float (Binary64.tenths 0))]

/-- The single number of a value. -/
def numberOf (value : Json) : Except Error (List Binary64) := numbers "value" 1 (.arr [value])

def constantNumber : Kind where
  name := "Number"
  family := "ConstantNumber"
  outputs := [.scalar "value"]
  defaultData := zeroDefaults
  validate data := do
    if ← data.has "value" then discard (numberOf (← data.member "value"))
  worker _ data _ := do
    match ← numberOf (← dataValue data zeroDefaults "value") with
    | [x] => return [("value", .ofValue (.number x))]
    | _ => throw .notExpression

end ShaderFlow.Kind
