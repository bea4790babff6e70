import ShaderFlow.Json.Fields
import ShaderFlow.Render.Device
import ShaderFlow.Render.Frame

set_option autoImplicit false

/-
A canvas is a compiled shader with the quad it is drawn on and the texture it samples. It owns what
it makes on its device: a program, a buffer, a vertex array, and at times a texture and a
framebuffer.
-/

namespace ShaderFlow

/-- A compiled shader. -/
structure Shader where
  program : Nat
  uniforms : List String
  deriving DecidableEq, Inhabited

structure Texture where
  number : Nat
  width : Nat
  height : Nat
  components : Nat
  deriving DecidableEq, Inhabited

structure Canvas where
  device : Device
  /-- Width and height, as they were given. -/
  size : List Json
  shader : Shader
  buffer : Nat
  vertexArray : Nat
  texture : Option Texture := none
  framebuffer : Option Nat := none

/-- Work with a canvas. What happened before a failure stays. -/
abbrev CanvasM := ExceptT Error (StateM Canvas)

namespace CanvasM

/-- Work with the canvas's device. -/
def onDevice {α : Type} (work : DeviceM α) : CanvasM α :=
  ExceptT.mk fun c =>
    let (outcome, d) := work.run c.device
    (outcome, { c with device := d })

def perform (call : Call) : CanvasM Unit := onDevice (DeviceM.perform call)

end CanvasM

namespace Canvas

open DeviceM

/-- Compiles a fragment shader. -/
def compile (source : String) : DeviceM Shader := do
  let d ← get
  if d.surroundings.compiles source then
    let program := d.counts.programs + 1
    perform (.compile program Target.vertexShader source)
    modify fun d => { d with counts := { d.counts with programs := program } }
    let uniforms := d.surroundings.uniforms source
    tell (.compiled uniforms)
    return { program, uniforms }
  else
    perform (.compileFailure source)
    tell .compileError
    fail .compileFailed

def makeBuffer : DeviceM Nat := do
  let n := (← get).counts.buffers + 1
  perform (.makeBuffer n)
  modify fun d => { d with counts := { d.counts with buffers := n } }
  return n

/-- Makes the vertex array of the quad for a program. -/
def makeVertexArray (program buffer : Nat) : DeviceM Nat := do
  let n := (← get).counts.vertexArrays + 1
  perform (.makeVertexArray n program buffer)
  modify fun d => { d with counts := { d.counts with vertexArrays := n } }
  return n

def makeTexture (width height components : Nat) : DeviceM Texture := do
  let n := (← get).counts.textures + 1
  perform (.makeTexture n width height components)
  modify fun d => { d with counts := { d.counts with textures := n } }
  return ⟨n, width, height, components⟩

def makeFramebuffer (size : List Json) : DeviceM Nat := do
  let n := (← get).counts.framebuffers + 1
  perform (.makeFramebuffer n (Json.displayItems size))
  modify fun d => { d with counts := { d.counts with framebuffers := n } }
  return n

/-- The parts of a new canvas. -/
def make (source : String) : DeviceM (Shader × Nat × Nat) := do
  let shader ← compile source
  let buffer ← makeBuffer
  let vertexArray ← makeVertexArray shader.program buffer
  return (shader, buffer, vertexArray)

/-- A new canvas on a device, or the failure with what happened on the device. -/
def new (source : String) (size : List Json) (device : Device) : Except (Error × Device) Canvas :=
  match (make source).run device with
  | (.ok (shader, buffer, vertexArray), device) =>
    .ok { device, size, shader, buffer, vertexArray }
  | (.error e, device) => .error (e, device)

/-- Puts a new shader in the place of the old one, if it compiles. -/
def reload (source : String) : CanvasM Bool := do
  match ← CanvasM.onDevice (attempt (compile source)) with
  | .error .compileFailed =>
    CanvasM.onDevice (tell (.shaderKept .compileFailed))
    return false
  | .error e => CanvasM.onDevice (fail e)
  | .ok shader =>
    let c ← get
    CanvasM.perform (.release (.vertexArray c.vertexArray))
    CanvasM.perform (.release (.program c.shader.program))
    modify fun c => { c with shader }
    let vertexArray ← CanvasM.onDevice (makeVertexArray shader.program c.buffer)
    modify fun c => { c with vertexArray }
    CanvasM.onDevice (tell .reloaded)
    return true

/-- Whether a texture has a size and a count of components. -/
def fits (width height components : Nat) (t : Texture) : Bool :=
  t.width == width && t.height == height && t.components == components

/-- The texture for a frame: the one there is, if it fits, or a new one in its place. -/
def textureFor (width height components : Nat) : CanvasM Texture := do
  let c ← get
  match c.texture.filter (fits width height components) with
  | some t => return t
  | none =>
    match c.texture with
    | some t => CanvasM.perform (.release (.texture t.number))
    | none => pure ()
    let t ← CanvasM.onDevice (makeTexture width height components)
    modify fun c => { c with texture := some t }
    CanvasM.perform (.filterTexture t.number)
    CanvasM.perform (.clampAcross t.number)
    CanvasM.perform (.clampAlong t.number)
    return t

/-- Makes a frame the current texture. -/
def upload (r : Raster) : CanvasM Unit := do
  match r.shape with
  | [height, width, components] =>
    let t ← textureFor width height components
    CanvasM.perform (.writeTexture t.number r.bytesUpward)
    CanvasM.perform (.useTexture t.number)
  | _ => CanvasM.onDevice (fail (.misuse .value "expected three axes"))

/-- Draws a frame where drawing goes to. -/
def draw (r : Raster) : CanvasM Unit := do
  upload r
  let c ← get
  CanvasM.perform .clear
  if c.shader.uniforms.contains resolutionName then
    let size ← (c.size.mapM Json.toNumber : Except Error (List Binary64))
    CanvasM.perform (.setResolution c.shader.program size)
  if c.shader.uniforms.contains videoName then
    CanvasM.perform (.setVideo c.shader.program)
  CanvasM.perform (.draw c.vertexArray)

/-- The framebuffer of the canvas, made when it is first needed. -/
def ownFramebuffer : CanvasM Nat := do
  let c ← get
  match c.framebuffer with
  | some n => return n
  | none =>
    let n ← CanvasM.onDevice (makeFramebuffer c.size)
    modify fun c => { c with framebuffer := some n }
    return n

/-- The rows of a picture in the opposite order. -/
def flipRows (width height : Int) (bytes : List UInt8) : List UInt8 :=
  (Raster.pieces (4 * width.toNat) height.toNat bytes).reverse.flatten

/-- Sizes, and the bytes of pictures of these sizes, are counted in signed words of 64 bits. -/
def countLimit : Int := Nat.pow 2 63

/-- Whether bytes can be cut into rows of a width: at most one of the sizes is negative, which then
stands for whatever is left, and the other one has to be more than nothing. Sizes that are not count
as one where it comes to the limit. -/
def hasRows (width height : Int) : Bool :=
  !(decide (width < 0 ∧ height ≤ 0) || decide (height < 0 ∧ width ≤ 0)) &&
    decide (4 * max 1 width * max 1 height < countLimit)

/-- A size where pixels are counted. A truth value does not do. -/
def side : Json → Except Error Int
  | .int n =>
    if -countLimit ≤ n ∧ n < countLimit then .ok n
    else .error (.misuse .value "maximum allowed dimension exceeded")
  | v => v.refuse "an integer"

/-- The width and the height of a size, of which the height is read first. What follows them counts
for nothing. -/
def sides : List Json → Except Error (Int × Int)
  | width :: height :: _ => do
    let height ← side height
    return (← side width, height)
  | _ => .error (.misuse .item "tuple index out of range")

/-- Draws a frame offscreen and reads the picture back. -/
def renderFrame (r : Raster) : CanvasM Frame := do
  let n ← ownFramebuffer
  CanvasM.perform (.useFramebuffer n)
  draw r
  CanvasM.perform (.readFramebuffer n)
  let c ← get
  let (width, height) ← (sides c.size : Except Error (Int × Int))
  if !hasRows width height then
    CanvasM.onDevice (fail (.misuse .value "no rows of this width"))
  let bytes := c.device.surroundings.pixels width height
  return { width := width.toNat, height := height.toNat, components := 4,
           pixels := flipRows width height bytes }

/-- What a canvas owns, in the order it is released. -/
def resources (c : Canvas) : List Resource :=
  c.framebuffer.toList.map .framebuffer ++ c.texture.toList.map (fun t => .texture t.number) ++
    [.vertexArray c.vertexArray, .buffer c.buffer, .program c.shader.program]

def release : CanvasM Unit := do
  let c ← get
  CanvasM.onDevice (c.resources.forM fun r => cleanUp (.release r))

end Canvas

end ShaderFlow
