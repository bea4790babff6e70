import ShaderFlow.Proofs.Render.Ownership

set_option autoImplicit false

namespace ShaderFlow.Canvas

open Work DeviceM Trace

variable {start d : Device} {t : List Call} {c : Canvas}

section Ends

theorem holds_start (steady : d.faultAt = none) : d.Holds [] [] d :=
  ⟨steady, (List.append_nil _).symm, .nil, fun _ none => absurd none List.not_mem_nil⟩

theorem exists_new {source : String} (steady : d.faultAt = none)
    (compiles : d.surroundings.compiles source = true) (size : List Json) :
    ∃ c, Canvas.new source size d = .ok c ∧ ∃ t, c.Keeps d t := by
  obtain ⟨shader, d₁, ran₁, holds₁⟩ := run_compile (holds_start steady) compiles
  obtain ⟨buffer, d₂, ran₂, holds₂⟩ := run_makeBuffer holds₁
  obtain ⟨vertexArray, d₃, ran₃, holds₃⟩ := run_makeVertexArray (p := shader.program) (b := buffer)
    holds₂ (by simp) (by simp)
  have ran : (make source).run d = (.ok (shader, buffer, vertexArray), d₃) := by
    rw [make, run_bind_ok ran₁, run_bind_ok ran₂, run_bind_ok ran₃]
    rfl
  have owned : [Resource.program shader.program, .buffer buffer, .vertexArray vertexArray].Perm
      [.vertexArray vertexArray, .buffer buffer, .program shader.program] :=
    List.reverse_perm [Resource.vertexArray vertexArray, .buffer buffer, .program shader.program]
  refine ⟨{ device := d₃, size, shader, buffer, vertexArray }, ?_, _, ⟨holds₃.steady, holds₃.calls,
    holds₃.balanced.of_perm owned, holds₃.counted⟩, joined_iff holds₃.balanced.nodup⟩
  rw [Canvas.new, ran]

theorem new_of_not {source : String} (steady : d.faultAt = none)
    (fails : d.surroundings.compiles source = false) (size : List Json) :
    ∃ d', Canvas.new source size d = .error (.compileFailed, d') ∧
      d'.calls = d.calls ++ [.compileFailure source] := by
  have ran : (make source).run d = (.error .compileFailed,
      { d.noting (.compileFailure source) with log := d.log ++ [.compileError] }) :=
    run_bind_error (run_compile_of_not steady fails)
  refine ⟨{ d.noting (.compileFailure source) with log := d.log ++ [.compileError] }, ?_, rfl⟩
  rw [Canvas.new, ran]

theorem run_cleanUps (rs : List Resource) (d : Device) :
    (rs.forM fun r => cleanUp (.release r)).run d =
      (.ok (), { d with calls := d.calls ++ rs.map .release }) := by
  induction rs generalizing d with
  | nil =>
    rw [List.map_nil, List.append_nil]
    rfl
  | cons r rs ih =>
    have here : (cleanUp (.release r)).run d = (.ok (), d.noting (.release r)) := rfl
    show (cleanUp (.release r) >>= fun _ => rs.forM fun r => cleanUp (.release r)).run d = _
    rw [run_bind_ok here, ih, List.map_cons, Device.noting, List.append_assoc]
    rfl

/-- Releasing a canvas releases all that it owns. -/
theorem run_release (c : Canvas) :
    release.run c = (.ok (), { c with device :=
      { c.device with calls := c.device.calls ++ c.resources.map .release } }) := by
  rw [release, run_get_bind]
  exact run_onDevice (run_cleanUps c.resources c.device)

end Ends

section Uses

/-- A use of a canvas. -/
inductive Use where
  | draw (r : Raster)
  | renderFrame (r : Raster)
  | upload (r : Raster)
  | reload (source : String)

def Use.work : Use → CanvasM Unit
  | draw r => Canvas.draw r
  | renderFrame r => do
    let _ ← Canvas.renderFrame r
    return
  | upload r => Canvas.upload r
  | reload source => do
    let _ ← Canvas.reload source
    return

/-- A canvas in other surroundings. -/
def within (c : Canvas) (surroundings : Surroundings) : Canvas :=
  { c with device := { c.device with surroundings } }

/-- A canvas after uses of it, each in surroundings of its own, so that a source may compile at one
time and fail to at another. A use that fails leaves what it did. -/
def useAll (c : Canvas) (uses : List (Surroundings × Use)) : Canvas :=
  uses.foldl (fun c use => (use.2.work.run (c.within use.1)).2) c

theorem Keeps.within (keeps : c.Keeps start t) (surroundings : Surroundings) :
    (c.within surroundings).Keeps start t :=
  ⟨⟨keeps.steady, keeps.holds.calls, keeps.holds.balanced, keeps.holds.counted⟩, keeps.bound⟩

theorem preserves_reload (source : String) :
    Preserves (fun c => ∃ t, c.Keeps start t) (reload source) := by
  intro c tracks
  obtain ⟨t, keeps⟩ := tracks
  cases compiles : c.device.surroundings.compiles source with
  | true =>
    obtain ⟨c', t', ran, kept⟩ := run_reload keeps compiles
    rw [ran]
    exact ⟨t', kept⟩
  | false =>
    have handles : c.Handles (.compileFailure source) :=
      ⟨rfl, rfl, fun _ none => absurd none List.not_mem_nil⟩
    obtain ⟨holds, bound⟩ := keeps.note handles
    rw [run_reload_of_not keeps.steady compiles]
    exact ⟨_, ⟨holds.steady, holds.calls, holds.balanced, holds.counted⟩, bound⟩

theorem preserves_work (use : Use) : Preserves (fun c => ∃ t, c.Keeps start t) use.work := by
  cases use with
  | draw r => exact fun c tracks => (preserves_draw c.framebuffer r c ⟨tracks, rfl⟩).1
  | renderFrame r => exact (preserves_renderFrame r).bind fun _ => .pure _
  | upload r => exact fun c tracks => (preserves_upload c.framebuffer r c ⟨tracks, rfl⟩).1
  | reload source => exact (preserves_reload source).bind fun _ => .pure _

theorem keeps_useAll (kept : ∃ t, c.Keeps start t) (uses : List (Surroundings × Use)) :
    ∃ t, (c.useAll uses).Keeps start t := by
  induction uses generalizing c with
  | nil => exact kept
  | cons use uses ih =>
    obtain ⟨t, keeps⟩ := kept
    exact ih (preserves_work use.2 _ ⟨t, keeps.within use.1⟩)

end Uses

section Lifetime

/-- The calls since a device was in some state account for what a canvas owns: it is what they made
and did not release, the vertex array was made for the program and the buffer, and each call used
only what was there at its time. -/
structure Accounts (c : Canvas) (start : Device) (t : List Call) : Prop where
  calls : c.device.calls = start.calls ++ t
  live : ∀ r, Trace.Live t r ↔ r ∈ c.resources
  bound : ∀ p b, .makeVertexArray c.vertexArray p b ∈ t ↔ p = c.shader.program ∧ b = c.buffer
  safe : Safe t

theorem Keeps.accounts (keeps : c.Keeps start t) : c.Accounts start t :=
  ⟨keeps.holds.calls, keeps.holds.balanced.live_iff, keeps.bound, keeps.holds.balanced.safe⟩

/-- On a device whose calls do not fail, a source that does not compile leaves nothing behind. A
canvas of one that does owns after all its uses what it made and did not release. A reload that
fails then changes nothing but the records. Releasing the canvas is safe as well, and by then
everything that was ever made was released exactly once. -/
theorem useAll_accounts_and_release (source : String) (size : List Json) (d : Device)
    (steady : d.faultAt = none) :
    (d.surroundings.compiles source = false →
      ∃ d', Canvas.new source size d = .error (.compileFailed, d') ∧
        d'.calls = d.calls ++ [.compileFailure source]) ∧
    (d.surroundings.compiles source = true →
      ∃ c, Canvas.new source size d = .ok c ∧ ∀ uses : List (Surroundings × Use),
        (∃ t, (c.useAll uses).Accounts d t) ∧
        (∀ (surroundings : Surroundings) (other : String), surroundings.compiles other = false →
          (reload other).run ((c.useAll uses).within surroundings) = (.ok false,
            ((c.useAll uses).within surroundings).recording (.compileFailure other)
              [.compileError, .shaderKept .compileFailed])) ∧
        ∃ c' t, release.run (c.useAll uses) = (.ok (), c') ∧ c'.device.calls = d.calls ++ t ∧
          Safe t ∧ (made t).Nodup ∧ (released t).Perm (made t)) := by
  refine ⟨fun fails => new_of_not steady fails size, fun compiles => ?_⟩
  obtain ⟨c, made, kept⟩ := exists_new steady compiles size
  refine ⟨c, made, fun uses => ?_⟩
  obtain ⟨t, keeps⟩ := keeps_useAll kept uses
  refine ⟨⟨t, keeps.accounts⟩, fun surroundings other fails =>
    run_reload_of_not (keeps.within surroundings).steady fails, _,
    t ++ (c.useAll uses).resources.map .release, run_release _, ?_, ?_⟩
  · show (c.useAll uses).device.calls ++ _ = _
    rw [keeps.holds.calls, List.append_assoc]
  · obtain ⟨nodup, perm, safe⟩ := keeps.holds.balanced.releaseAll
    rw [List.append_nil] at perm
    exact ⟨safe, nodup, perm.symm⟩

/-- A picture of a width. -/
def strip (width : Nat) : Raster := { form := default, shape := [1, width, 3], samples := [] }

/-- Uses that replace the texture twice and the program once. -/
def busy : List (Surroundings × Use) :=
  [({}, .draw (strip 1)), ({ compiles := fun _ => false }, .reload "void"), ({}, .reload "new"),
    ({}, .renderFrame (strip 2)), ({}, .upload (strip 2)), ({}, .draw (strip 1))]

theorem useAll_accounts_and_release_busy :
    ∃ c, Canvas.new "old" [.int 2, .int 1] {} = .ok c ∧
      (c.useAll busy).resources =
        [.framebuffer 1, .texture 3, .vertexArray 2, .buffer 1, .program 2] ∧
      (∃ t, (c.useAll busy).Accounts {} t) ∧
      ∃ c' t, release.run (c.useAll busy) = (.ok (), c') ∧ c'.device.calls = t ∧ Safe t ∧
        (made t).Nodup ∧ (released t).Perm (made t) := by
  obtain ⟨c, new, each⟩ := (useAll_accounts_and_release "old" [.int 2, .int 1] {} rfl).2 rfl
  obtain ⟨accounts, -, ends⟩ := each busy
  have owned : (Canvas.new "old" [.int 2, .int 1] {}).toOption.map
      (fun c => (c.useAll busy).resources) =
        some [.framebuffer 1, .texture 3, .vertexArray 2, .buffer 1, .program 2] := by
    decide +kernel
  rw [new] at owned
  exact ⟨c, new, Option.some.inj owned, accounts, ends⟩

end Lifetime

end ShaderFlow.Canvas
