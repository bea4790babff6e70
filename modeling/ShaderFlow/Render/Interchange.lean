import ShaderFlow.Json.Fields
import ShaderFlow.Render.Device
import ShaderFlow.Render.Frame

set_option autoImplicit false

namespace ShaderFlow

open Json (asInt asList asMembers asText field ints)

namespace Raster

/-- Reads nested lists of samples, bytes unless another type is named. -/
def read (v : Json) : Except Error Raster := do
  let form ← (field v "dtype").orElse SampleForm.read (.single { type := .unsigned 1 })
  ofJson form (field v "data")

end Raster

namespace Frame

def read (v : Json) : Except Error Frame := do ofRaster (← Raster.read v)

def toJson (f : Frame) : Json :=
  .obj [("shape", ints (f.shape.map Int.ofNat)),
    ("data", Raster.nest f.shape (f.pixels.map fun b => .int b.toNat))]

/-- A frame with its width and height. -/
def sizedToJson (f : Frame) : Json :=
  .obj [("size", ints [f.width, f.height]), ("frame", f.toJson)]

end Frame

namespace Surroundings

/-- Surroundings with what a value says of starting up, the clock and the keys. -/
def read (s : Surroundings) (v : Json) : Except Error Surroundings := do
  return { s with
    startsUp := (field v "init").asFlag true
    opensWindow := (field v "window").asFlag true
    times := ← asList (field v "times")
    keys := ← asMembers (field v "keys") }

end Surroundings

end ShaderFlow
