import ShaderFlow.Logged
import ShaderFlow.Render.Raster

set_option autoImplicit false

namespace ShaderFlow

structure Frame where
  width : Nat
  height : Nat
  components : Nat
  pixels : List UInt8
  deriving DecidableEq, Inhabited

namespace Frame

/-- The samples of a raster as bytes. Records and some other types cannot be clipped to them. -/
def bytesOf (r : Raster) : Except Error (List UInt8) :=
  match r.form with
  | .single field =>
    if field.type.isClippable then r.samples.mapM Sample.toByte else .error .unclippable
  | .record _ => .error .unclippable

/-- A frame from a raster: gray samples count for all three colors. -/
def ofRaster (r : Raster) : Except Error Frame := do
  match r.shape with
  | [height, width] =>
    let bytes ← bytesOf r
    return { width, height, components := 3, pixels := bytes.flatMap (List.replicate 3) }
  | [height, width, components] =>
    if components = 3 ∨ components = 4 then
      return { width, height, components, pixels := ← bytesOf r }
    else throw (.frameShape r.shape)
  | shape => throw (.frameShape shape)

def shape (f : Frame) : List Nat := [f.height, f.width, f.components]

def toRaster (f : Frame) : Raster :=
  { form := .single { type := .unsigned 1 }, shape := f.shape,
    samples := f.pixels.map fun b => .int b.toNat }

end Frame

/-- A camera with the frames it is going to deliver. -/
structure Camera where
  index : Json
  coming : List Raster
  last : Frame

namespace Camera

/-- Opens a camera, which takes its first frame. -/
def start (index : Json) : List Raster → Logged Camera
  | [] => throw .noFrame
  | first :: coming => do
    let last ← Frame.ofRaster first
    Logged.tell (.cameraOpened index last.width last.height)
    return { index, coming, last }

/-- The next frame, or the last one again. A frame that cannot be used is skipped. -/
def read (c : Camera) : Camera × Logged Frame :=
  match c.coming with
  | [] =>
    (c, do
      Logged.tell (.cameraStopped c.index)
      return c.last)
  | r :: coming =>
    match Frame.ofRaster r with
    | .ok f => ({ c with coming, last := f }, pure f)
    | .error e => ({ c with coming }, throw e)

end Camera

end ShaderFlow
