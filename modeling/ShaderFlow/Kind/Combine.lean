import ShaderFlow.Kind.Basic

set_option autoImplicit false

namespace ShaderFlow.Kind

/-- The sink: its color becomes the final one. -/
def canvas : Kind where
  name := "Canvas"
  family := "Canvas"
  inputs := [.color "color" "color"]
  isSink := true
  worker _ _ inputs :=
    let f := Inputs.firstOr inputs "color" .black
    .ok [(resultKey, f.complete [.commit f.value])]

def colorPair : List Socket := [.color "colorA" "color A", .color "colorB" "color B"]

/-- Joins two colors; a single one passes through unchanged. -/
def joinPair (formula : Term → Term → Term) (inputs : Inputs) : Fragment :=
  match Inputs.first? inputs "colorA", Inputs.first? inputs "colorB" with
  | none, none => .ofValue .black
  | some f, none | none, some f => f
  | some f, some g => f.combineWith g [] (formula f.value g.value)

def blendColors : Kind where
  name := "Blend Colors"
  family := "BlendColors"
  inputs := colorPair
  outputs := [.color "color" "color"]
  worker _ _ inputs :=
    let formula a b := .raw [.text "(", a, .text " + ", b, .text ") / 2.0"]
    .ok [("color", joinPair formula inputs)]

def multiplyColors : Kind where
  name := "Multiply Colors"
  family := "MultiplyColors"
  inputs := colorPair
  outputs := [.color "color" "color"]
  worker _ _ inputs :=
    let formula a b := .raw [a.group, .text " * ", b.group]
    .ok [("color", joinPair formula inputs)]

/-- Linear interpolation between two colors. -/
def mixColors : Kind where
  name := "Mix Colors"
  family := "MixColors"
  inputs := colorPair ++ [.scalar "factor"]
  outputs := [.color "color" "color"]
  worker _ _ inputs :=
    let f := Inputs.firstOr inputs "colorA" .black
    let g := Inputs.firstOr inputs "colorB" .black
    let factor := Inputs.firstOr inputs "factor" (.number (.tenths 5))
    let value := .call "mix" [f.value, g.value, factor.value]
    .ok [("color", .combine [f, g, factor] value)]

def invertColor : Kind where
  name := "Invert Color"
  family := "InvertColor"
  inputs := [.color "color" "color"]
  outputs := [.color "color" "color"]
  worker seat _ inputs :=
    let f := (Inputs.firstOr inputs "color" .black).bind s!"inv_{seat.label}" "vec4"
    let value := .vec .vec4
      [.raw [.text "vec3(1.0) - ", .swizzle f.value "rgb"], .swizzle f.value "a"]
    .ok [("color", f.withValue value)]

def channels : List String := ["r", "g", "b", "a"]

/-- The value of a channel that is not connected. -/
def channelDefault (channel : String) : Term :=
  .number (if channel = "a" then .tenths 10 else .tenths 0)

def splitColor : Kind where
  name := "Split Color"
  family := "SplitColor"
  inputs := [.color "color" "color"]
  outputs := channels.map .scalar
  worker seat _ inputs :=
    let f := (Inputs.firstOr inputs "color" .black).bind s!"split_{seat.label}" "vec4"
    .ok (channels.map fun c => (c, f.withValue (.swizzle f.value c)))

def joinColor : Kind where
  name := "Join Color"
  family := "JoinColor"
  inputs := channels.map .scalar
  outputs := [.color "color" "color"]
  worker _ _ inputs :=
    let fs := channels.map fun c => Inputs.firstOr inputs c (channelDefault c)
    .ok [("color", .combine fs (.vec .vec4 (fs.map (·.value))))]

end ShaderFlow.Kind
