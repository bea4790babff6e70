import ShaderFlow.Proofs.Render.Ledger

set_option autoImplicit false

/-
Where calls do not fail, a canvas owns at each time what it made and did not release: its program,
its buffer, its vertex array, which was made for these two, and at times a texture and a
framebuffer. Every operation keeps this so, whether it succeeds or not, and releasing the canvas
releases the rest.
-/

namespace ShaderFlow

open Work DeviceM Trace

variable {start d : Device} {t : List Call} {owned : List Resource} {c c' : Canvas} {call : Call}

section Making

theorem run_perform (steady : d.faultAt = none) (call : Call) :
    (perform call).run d = (.ok (), d.noting call) := by
  have apart : ¬ d.faultAt = some d.calls.length := by simp [steady]
  rw [perform, run_get_bind, if_neg apart]
  rfl

theorem run_attempt {α : Type} (work : DeviceM α) (d : Device) :
    (attempt work).run d = (.ok (work.run d).1, (work.run d).2) := rfl

theorem Device.Holds.telling (holds : start.Holds t owned d) (event : Event) :
    start.Holds t owned { d with log := d.log ++ [event] } :=
  ⟨holds.steady, holds.calls, holds.balanced, holds.counted⟩

/-- What a call makes is owned, if it is counted then and was not before. -/
theorem Device.Holds.counting {r : Resource} (holds : start.Holds t owned d) (call : Call)
    (makes : call.makes? = some r) (releases : call.releases? = none)
    (used : ∀ r ∈ call.named, r ∈ owned) (fresh : ¬ d.counts.Covers r) :
    start.Holds (t ++ [call]) (owned ++ [r]) { d.noting call with counts := d.counts.upTo r } := by
  refine holds.step holds.steady rfl ?_ ?_
    (fun r' covered => Counts.covers_upTo fresh (.inl covered)) ?_
  · intro r uses
    cases uses with
    | named member => exact used r member
    | program | buffer => cases makes
  · intro r' member
    obtain rfl : r = r' := by simpa [makes] using member
    exact ⟨fresh, Counts.covers_upTo fresh (.inr rfl)⟩
  · rw [makes, releases]
    exact .refl _

theorem Device.Holds.made {α : Type} (r : Resource) (holds : start.Holds t owned d)
    (call : Call) (a : α) (makes : call.makes? = some r) (releases : call.releases? = none)
    (used : ∀ r ∈ call.named, r ∈ owned) (fresh : ¬ d.counts.Covers r) :
    ∃ d', (do perform call; modify fun d => { d with counts := d.counts.upTo r }; return a :
        DeviceM α).run d = (.ok a, d') ∧ start.Holds (t ++ [call]) (owned ++ [r]) d' := by
  refine ⟨_, ?_, holds.counting call makes releases used fresh⟩
  rw [run_bind_ok (run_perform holds.steady call)]
  rfl

namespace Canvas

theorem run_makeBuffer (holds : start.Holds t owned d) :
    ∃ n d', makeBuffer.run d = (.ok n, d') ∧
      start.Holds (t ++ [.makeBuffer n]) (owned ++ [.buffer n]) d' :=
  ⟨_, holds.made (.buffer _) (.makeBuffer _) _ rfl rfl
    (fun _ none => absurd none List.not_mem_nil) (Nat.not_succ_le_self _)⟩

theorem run_makeVertexArray {p b : Nat} (holds : start.Holds t owned d)
    (program : .program p ∈ owned) (buffer : .buffer b ∈ owned) :
    ∃ n d', (makeVertexArray p b).run d = (.ok n, d') ∧
      start.Holds (t ++ [.makeVertexArray n p b]) (owned ++ [.vertexArray n]) d' := by
  have used : ∀ r ∈ [.program p, .buffer b], r ∈ owned := by simp [program, buffer]
  exact ⟨_, holds.made (.vertexArray _) (.makeVertexArray _ p b) _ rfl rfl used
    (Nat.not_succ_le_self _)⟩

theorem run_makeTexture (holds : start.Holds t owned d) (width height components : Nat) :
    ∃ x d', (makeTexture width height components).run d = (.ok x, d') ∧
      start.Holds (t ++ [.makeTexture x.number width height components])
        (owned ++ [.texture x.number]) d' :=
  ⟨⟨_, width, height, components⟩,
    holds.made (.texture _) (.makeTexture _ width height components) _ rfl rfl
      (fun _ none => absurd none List.not_mem_nil) (Nat.not_succ_le_self _)⟩

theorem run_makeFramebuffer (holds : start.Holds t owned d) (size : List Json) :
    ∃ n d', (makeFramebuffer size).run d = (.ok n, d') ∧
      start.Holds (t ++ [.makeFramebuffer n (Json.displayItems size)]) (owned ++ [.framebuffer n])
        d' :=
  ⟨_, holds.made (.framebuffer _) (.makeFramebuffer _ _) _ rfl rfl
    (fun _ none => absurd none List.not_mem_nil) (Nat.not_succ_le_self _)⟩

theorem run_compile {source : String} (holds : start.Holds t owned d)
    (compiles : d.surroundings.compiles source = true) :
    ∃ shader d', (compile source).run d = (.ok shader, d') ∧
      start.Holds (t ++ [.compile shader.program Target.vertexShader source])
        (owned ++ [.program shader.program]) d' := by
  have fresh : ¬ d.counts.Covers (.program (d.counts.programs + 1)) := Nat.not_succ_le_self _
  have kept := holds.counting (.compile _ Target.vertexShader source) rfl rfl
    (fun _ none => absurd none List.not_mem_nil) fresh
  refine ⟨⟨_, d.surroundings.uniforms source⟩, _, ?_,
    kept.telling (.compiled (d.surroundings.uniforms source))⟩
  rw [compile, run_get_bind, if_pos compiles, run_bind_ok (run_perform holds.steady _)]
  rfl

theorem run_compile_of_not {source : String} (steady : d.faultAt = none)
    (fails : d.surroundings.compiles source = false) :
    (compile source).run d = (.error .compileFailed,
      { d.noting (.compileFailure source) with log := d.log ++ [.compileError] }) := by
  have not : ¬ d.surroundings.compiles source = true := by simp [fails]
  rw [compile, run_get_bind, if_neg not, run_bind_ok (run_perform steady _)]
  rfl

end Canvas

end Making

section Owning

namespace Canvas

/-- Since a device was in some state, a canvas on it owns what it made and did not release, and its
vertex array was made for its program and its buffer. -/
structure Keeps (c : Canvas) (start : Device) (t : List Call) : Prop where
  holds : start.Holds t c.resources c.device
  bound : ∀ p b, .makeVertexArray c.vertexArray p b ∈ t ↔ p = c.shader.program ∧ b = c.buffer

/-- A call neither makes nor releases anything, and names only what a canvas owns. -/
structure Handles (c : Canvas) (call : Call) : Prop where
  makes : call.makes? = none
  releases : call.releases? = none
  owned : ∀ r ∈ call.named, r ∈ c.resources

theorem Handles.of_named {r : Resource} (call : Call) (makes : call.makes? = none)
    (releases : call.releases? = none) (named : call.named = [r]) (owned : r ∈ c.resources) :
    c.Handles call :=
  ⟨makes, releases, by simpa [named] using owned⟩

def noting (c : Canvas) (call : Call) : Canvas := { c with device := c.device.noting call }

theorem run_onDevice {α : Type} {work : DeviceM α} {outcome : Except Error α}
    (ran : work.run c.device = (outcome, d)) :
    (CanvasM.onDevice work).run c = (outcome, { c with device := d }) := by
  have both : (CanvasM.onDevice work).run c =
      ((work.run c.device).1, { c with device := (work.run c.device).2 }) := rfl
  rw [both, ran]

theorem run_note (steady : c.device.faultAt = none) (call : Call) :
    (CanvasM.perform call).run c = (.ok (), c.noting call) :=
  run_onDevice (run_perform steady call)

theorem run_notes {α : Type} {rest : CanvasM α} (steady : c.device.faultAt = none)
    (first second : Call) :
    (do CanvasM.perform first; CanvasM.perform second; rest).run c =
      rest.run ((c.noting first).noting second) := by
  rw [run_bind_ok (run_note steady first),
    run_bind_ok (run_note (c := c.noting first) steady second)]

theorem mem_resources {r : Resource} :
    r ∈ c.resources ↔ (∃ n, c.framebuffer = some n ∧ r = .framebuffer n) ∨
      (∃ x, c.texture = some x ∧ r = .texture x.number) ∨ r = .vertexArray c.vertexArray ∨
      r = .buffer c.buffer ∨ r = .program c.shader.program := by
  simp only [resources, List.mem_append, List.mem_map, Option.mem_toList, List.mem_cons,
    List.not_mem_nil, or_false, or_assoc, eq_comm]

namespace Keeps

/-- Drawing the vertex array uses the program and the buffer that the canvas owns. -/
theorem uses_owned (keeps : c.Keeps start t) (owned : ∀ r ∈ call.named, r ∈ c.resources) :
    ∀ r, call.Uses t r → r ∈ c.resources := by
  have joined : ∀ {n p b : Nat}, .makeVertexArray n p b ∈ t →
      .vertexArray n ∈ c.resources → p = c.shader.program ∧ b = c.buffer := by
    intro n p b before inside
    obtain rfl : n = c.vertexArray := by simpa [mem_resources] using inside
    exact (keeps.bound p b).mp before
  intro r uses
  cases uses with
  | named member => exact owned r member
  | program before =>
    rw [(joined before (owned _ List.mem_cons_self)).1]
    simp [mem_resources]
  | buffer before =>
    rw [(joined before (owned _ List.mem_cons_self)).2]
    simp [mem_resources]

/-- A call that makes no vertex array keeps the one of a canvas bound. -/
theorem bound_snoc (keeps : c.Keeps start t) (other : ∀ n, call.makes? ≠ some (.vertexArray n))
    (p b : Nat) :
    .makeVertexArray c.vertexArray p b ∈ t ++ [call] ↔ p = c.shader.program ∧ b = c.buffer := by
  rw [List.mem_append, List.mem_singleton, keeps.bound]
  refine or_iff_left fun same => other c.vertexArray ?_
  rw [← same]
  rfl

theorem note (keeps : c.Keeps start t) (handles : c.Handles call) :
    (c.noting call).Keeps start (t ++ [call]) where
  holds := by
    refine keeps.holds.step keeps.holds.steady rfl (keeps.uses_owned handles.owned) ?_
      (fun r covered => covered) ?_
    · simp [handles.makes]
    · rw [handles.makes, handles.releases, Option.toList_none, List.append_nil, List.nil_append]
      exact .refl _
  bound := keeps.bound_snoc (by simp [handles.makes])

end Keeps

/-- A canvas after calls that it handles. -/
inductive Noted (c : Canvas) : Canvas → Prop where
  | refl : Noted c c
  | note {c' : Canvas} {call : Call} (noted : Noted c c') (handles : c.Handles call) :
    Noted c (c'.noting call)

namespace Noted

theorem parts (noted : c.Noted c') : c' = { c with device := c'.device } := by
  induction noted with
  | refl => rfl
  | note _ _ ih =>
    rw [noting, ih]

theorem faultAt (noted : c.Noted c') : c'.device.faultAt = c.device.faultAt := by
  induction noted with
  | refl => rfl
  | note _ _ ih => exact ih

theorem resources (noted : c.Noted c') : c'.resources = c.resources := by
  rw [noted.parts]
  rfl

theorem keeps (noted : c.Noted c') (kept : c.Keeps start t) : ∃ t', c'.Keeps start t' := by
  induction noted with
  | refl => exact ⟨t, kept⟩
  | @note c' call noted handles ih =>
    obtain ⟨t', keeps⟩ := ih
    refine ⟨_, keeps.note ⟨handles.makes, handles.releases, ?_⟩⟩
    rw [noted.resources]
    exact handles.owned

end Noted

theorem preserves_note (steady : c.device.faultAt = none) (handles : c.Handles call) :
    Preserves c.Noted (CanvasM.perform call) := by
  intro c' noted
  rw [run_note (noted.faultAt.trans steady)]
  exact noted.note handles

end Canvas

end Owning

section Operations

namespace Canvas

/-- A canvas keeps its books since some state of its device. -/
def Tracks (start : Device) (framebuffer : Option Nat) (c : Canvas) : Prop :=
  (∃ t, c.Keeps start t) ∧ c.framebuffer = framebuffer

theorem Keeps.steady (keeps : c.Keeps start t) : c.device.faultAt = none := keeps.holds.steady

/-- A canvas without a texture gets one. -/
theorem run_newTexture (keeps : ({ c with texture := none } : Canvas).Keeps start t)
    (width height components : Nat) :
    ∃ x c', (do
        let x ← CanvasM.onDevice (makeTexture width height components)
        modify fun c => { c with texture := some x }
        CanvasM.perform (.filterTexture x.number)
        CanvasM.perform (.clampAcross x.number)
        CanvasM.perform (.clampAlong x.number)
        return x : CanvasM Texture).run c = (.ok x, c') ∧ (∃ t', c'.Keeps start t') ∧
      c'.texture = some x ∧ c'.framebuffer = c.framebuffer := by
  obtain ⟨x, d, ran, holds⟩ := run_makeTexture keeps.holds width height components
  have owned : (({ c with texture := none } : Canvas).resources ++ [Resource.texture x.number]).Perm
      ({ c with device := d, texture := some x } : Canvas).resources := by
    refine List.perm_iff_count.mpr fun r => ?_
    simp only [resources, List.count_append, Option.toList_none, List.map_nil, List.count_nil,
      Option.toList_some, List.map_cons]
    omega
  have kept : ({ c with device := d, texture := some x } : Canvas).Keeps start
      (t ++ [.makeTexture x.number width height components]) :=
    ⟨⟨holds.steady, holds.calls, holds.balanced.of_perm owned, holds.counted⟩,
      keeps.bound_snoc (by simp [Call.makes?])⟩
  have owns : .texture x.number ∈
      ({ c with device := d, texture := some x } : Canvas).resources := by
    simp [mem_resources]
  have noted := ((Noted.refl.note (.of_named (.filterTexture x.number) rfl rfl rfl owns)).note
    (.of_named (.clampAcross x.number) rfl rfl rfl owns)).note
    (.of_named (.clampAlong x.number) rfl rfl rfl owns)
  refine ⟨x, _, ?_, noted.keeps kept, ?_, ?_⟩
  · have newly : (CanvasM.onDevice (makeTexture width height components)).run c =
        (.ok x, { c with device := d }) := run_onDevice ran
    rw [run_bind_ok newly, run_modify_bind, run_notes kept.steady,
      run_bind_ok (run_note (c := noting (noting _ _) _) kept.steady _)]
    rfl
  · rw [noted.parts]
  · rw [noted.parts]

/-- The old texture may go before there is a new one. -/
theorem Keeps.releaseTexture {x : Texture} (keeps : c.Keeps start t)
    (present : c.texture = some x) :
    ({ c.noting (.release (.texture x.number)) with texture := none } : Canvas).Keeps start
      (t ++ [.release (.texture x.number)]) where
  holds := by
    refine keeps.holds.release (List.perm_iff_count.mpr fun r => ?_)
    simp only [resources, noting, present, List.count_append, List.count_cons, Option.toList_none,
      List.map_nil, List.count_nil, Option.toList_some, List.map_cons]
    omega
  bound := keeps.bound_snoc (by simp [Call.makes?])

/-- A texture of the size of a frame is there when one is needed. -/
theorem run_textureFor (keeps : c.Keeps start t) (width height components : Nat) :
    ∃ x c', (textureFor width height components).run c = (.ok x, c') ∧ (∃ t', c'.Keeps start t') ∧
      c'.texture = some x ∧ c'.framebuffer = c.framebuffer := by
  rw [textureFor, run_get_bind]
  cases fitting : c.texture.filter (fits width height components) with
  | some x => exact ⟨x, c, rfl, ⟨t, keeps⟩, (Option.filter_eq_some_iff.mp fitting).1, rfl⟩
  | none =>
    cases present : c.texture with
    | none =>
      have bare : c = { c with texture := none } := by rw [← present]
      exact run_newTexture (bare ▸ keeps) width height components
    | some x =>
      show ∃ x' c', ExceptT.run (CanvasM.perform (.release (.texture x.number)) >>= _) c = _ ∧ _
      rw [run_bind_ok (run_note keeps.steady _)]
      exact run_newTexture (keeps.releaseTexture present) width height components

theorem Tracks.noted {framebuffer : Option Nat} (tracks : c.Tracks start framebuffer)
    (noted : c.Noted c') : c'.Tracks start framebuffer := by
  obtain ⟨⟨t, keeps⟩, same⟩ := tracks
  refine ⟨noted.keeps keeps, ?_⟩
  rw [noted.parts]
  exact same

/-- Work that only handles what a canvas owns. -/
theorem preserves_of_noted {α : Type} {work : CanvasM α} {framebuffer : Option Nat}
    (each : ∀ c : Canvas, c.device.faultAt = none → c.framebuffer = framebuffer →
      Preserves c.Noted work) :
    Preserves (Tracks start framebuffer) work := by
  intro c tracks
  obtain ⟨⟨t, keeps⟩, same⟩ := tracks
  exact Tracks.noted ⟨⟨t, keeps⟩, same⟩ (each c keeps.steady same c .refl)

theorem preserves_fail {α : Type} {I : Canvas → Prop} (e : Error) :
    Preserves I (CanvasM.onDevice (fail e) : CanvasM α) := fun _ holds => holds

theorem preserves_upload (framebuffer : Option Nat) (r : Raster) :
    Preserves (Tracks start framebuffer) (upload r) := by
  intro c tracks
  obtain ⟨⟨t, keeps⟩, same⟩ := tracks
  unfold upload
  split
  · rename_i height width components shape
    obtain ⟨x, c', ran, ⟨t', keeps'⟩, present, kept⟩ := run_textureFor keeps width height components
    have owns : .texture x.number ∈ c'.resources := by simp [mem_resources, present]
    have rest : Preserves c'.Noted (do
        CanvasM.perform (.writeTexture x.number r.bytesUpward)
        CanvasM.perform (.useTexture x.number)) :=
      (preserves_note keeps'.steady (.of_named _ rfl rfl rfl owns)).bind fun _ =>
        preserves_note keeps'.steady (.of_named _ rfl rfl rfl owns)
    rw [run_bind_ok ran]
    exact Tracks.noted ⟨⟨t', keeps'⟩, kept.trans same⟩ (rest c' .refl)
  · exact preserves_fail _ c ⟨⟨t, keeps⟩, same⟩

theorem preserves_draw (framebuffer : Option Nat) (r : Raster) :
    Preserves (Tracks start framebuffer) (draw r) := by
  refine (preserves_upload framebuffer r).bind fun _ => preserves_of_noted fun c steady _ => ?_
  refine Preserves.get_bind fun c' noted => ?_
  have handles : ∀ call : Call, call.makes? = none → call.releases? = none →
      (∀ r ∈ call.named, r ∈ c'.resources) → c.Handles call := by
    intro call makes releases named
    rw [noted.resources] at named
    exact ⟨makes, releases, named⟩
  have last : Preserves c.Noted (CanvasM.perform (.draw c'.vertexArray)) :=
    preserves_note steady (handles _ rfl rfl (by simp [Call.named, mem_resources]))
  have video : Preserves c.Noted (CanvasM.perform (.setVideo c'.shader.program)) :=
    preserves_note steady (handles _ rfl rfl (by simp [Call.named, mem_resources]))
  have clears : Preserves c.Noted (CanvasM.perform .clear) :=
    preserves_note steady (handles _ rfl rfl (by simp [Call.named]))
  have resolution : ∀ size, Preserves c.Noted
      (CanvasM.perform (.setResolution c'.shader.program size)) := fun size =>
    preserves_note steady (handles _ rfl rfl (by simp [Call.named, mem_resources]))
  have finish : Preserves c.Noted (if c'.shader.uniforms.contains videoName then do
      CanvasM.perform (.setVideo c'.shader.program)
      CanvasM.perform (.draw c'.vertexArray)
    else CanvasM.perform (.draw c'.vertexArray)) := Preserves.ite (video.bind fun _ => last) last
  exact clears.bind fun _ => Preserves.ite
    ((Preserves.lift _).bind fun size => (resolution size).bind fun _ => finish) finish

/-- The framebuffer is there when one is needed. -/
theorem run_ownFramebuffer (keeps : c.Keeps start t) :
    ∃ n c', ownFramebuffer.run c = (.ok n, c') ∧ c'.Tracks start (some n) := by
  rw [ownFramebuffer, run_get_bind]
  cases present : c.framebuffer with
  | some n => exact ⟨n, c, rfl, ⟨t, keeps⟩, present⟩
  | none =>
    obtain ⟨n, d, ran, holds⟩ := run_makeFramebuffer keeps.holds c.size
    have newly : (CanvasM.onDevice (makeFramebuffer c.size)).run c =
        (.ok n, { c with device := d }) :=
      run_onDevice ran
    have owned : (c.resources ++ [Resource.framebuffer n]).Perm
        ({ c with device := d, framebuffer := some n } : Canvas).resources := by
      refine List.perm_iff_count.mpr fun r => ?_
      simp only [resources, present, List.count_append, Option.toList_none, List.map_nil,
        List.count_nil, Option.toList_some, List.map_cons]
      omega
    refine ⟨n, { c with device := d, framebuffer := some n }, ?_, ⟨_, ⟨holds.steady, holds.calls,
      holds.balanced.of_perm owned, holds.counted⟩, keeps.bound_snoc (by simp [Call.makes?])⟩, rfl⟩
    show ExceptT.run (CanvasM.onDevice (makeFramebuffer c.size) >>= _) c = _
    rw [run_bind_ok newly]
    rfl

theorem preserves_renderFrame (r : Raster) :
    Preserves (fun c => ∃ t, c.Keeps start t) (renderFrame r) := by
  intro c tracks
  obtain ⟨t, keeps⟩ := tracks
  obtain ⟨n, c', ran, tracks⟩ := run_ownFramebuffer keeps
  have use : ∀ call : Call, call.makes? = none → call.releases? = none →
      call.named = [.framebuffer n] →
      Preserves (Tracks start (some n)) (CanvasM.perform call) := by
    intro call makes releases named
    refine preserves_of_noted fun c steady same =>
      preserves_note steady (.of_named _ makes releases named ?_)
    simp [mem_resources, same]
  rw [renderFrame, run_bind_ok ran]
  refine (Preserves.bind (use _ rfl rfl rfl) fun _ => (preserves_draw _ r).bind fun _ =>
    (use _ rfl rfl rfl).bind fun _ => Preserves.get_bind fun _ _ => (Preserves.lift _).bind fun _ =>
      Preserves.ite ((preserves_fail _).bind fun _ => .pure _) (.pure _)) c' tracks |>.1

/-- A canvas whose device made one more call and reported more. -/
def recording (c : Canvas) (call : Call) (events : List Event) : Canvas :=
  { c with device := { c.device.noting call with log := c.device.log ++ events } }

/-- A reload that fails changes nothing but the records. -/
theorem run_reload_of_not {source : String} (steady : c.device.faultAt = none)
    (fails : c.device.surroundings.compiles source = false) :
    (reload source).run c = (.ok false,
      c.recording (.compileFailure source) [.compileError, .shaderKept .compileFailed]) := by
  have tried := run_attempt (compile source) c.device
  have events : c.device.log ++ [.compileError, .shaderKept .compileFailed] =
      c.device.log ++ [.compileError] ++ [.shaderKept .compileFailed] := by simp
  rw [run_compile_of_not steady fails] at tried
  rw [reload, run_bind_ok (run_onDevice tried), recording, events]
  rfl

/-- A vertex array that is made is bound to what it is made for, and to nothing else. -/
theorem joined_iff {n p b : Nat} (nodup : (made (t ++ [.makeVertexArray n p b])).Nodup)
    (p' b' : Nat) :
    .makeVertexArray n p' b' ∈ t ++ [.makeVertexArray n p b] ↔ p' = p ∧ b' = b := by
  have unmade : .makeVertexArray n p' b' ∉ t := by
    intro before
    rw [made_snoc] at nodup
    exact List.disjoint_of_nodup_append nodup (List.mem_filterMap.mpr ⟨_, before, rfl⟩)
      List.mem_cons_self
  simp [unmade]

/-- What a canvas owns for frames. -/
def attachments (c : Canvas) : List Resource :=
  c.framebuffer.toList.map .framebuffer ++ c.texture.toList.map fun x => .texture x.number

theorem resources_eq (c : Canvas) : c.resources =
    c.attachments ++
      [.vertexArray c.vertexArray, .buffer c.buffer, .program c.shader.program] := rfl

/-- A reload that succeeds puts a new program and a vertex array for it in the place of the old. -/
theorem run_reload {source : String} (keeps : c.Keeps start t)
    (compiles : c.device.surroundings.compiles source = true) :
    ∃ c' t', (reload source).run c = (.ok true, c') ∧ c'.Keeps start t' := by
  obtain ⟨shader, d₁, ran₁, holds₁⟩ := run_compile keeps.holds compiles
  have tried := run_attempt (compile source) c.device
  rw [ran₁] at tried
  have first : (c.resources ++ [Resource.program shader.program]).Perm
      (.vertexArray c.vertexArray :: (c.attachments ++
        [.buffer c.buffer, .program c.shader.program, .program shader.program])) := by
    refine List.perm_iff_count.mpr fun r => ?_
    simp only [resources_eq, List.count_append, List.count_cons, List.count_nil]
    omega
  have second : (c.attachments ++ [Resource.buffer c.buffer, .program c.shader.program,
      .program shader.program]).Perm (.program c.shader.program ::
      (c.attachments ++ [.buffer c.buffer, .program shader.program])) := by
    refine List.perm_iff_count.mpr fun r => ?_
    simp only [List.count_append, List.count_cons, List.count_nil]
    omega
  have holds₃ := (holds₁.release first).release second
  obtain ⟨n, d₄, ran₄, holds₄⟩ := run_makeVertexArray (p := shader.program) (b := c.buffer) holds₃
    (by simp) (by simp)
  have owned : (c.attachments ++ [Resource.buffer c.buffer, .program shader.program] ++
      [Resource.vertexArray n]).Perm
      ({ c with device := d₄, shader, vertexArray := n } : Canvas).resources := by
    refine List.perm_iff_count.mpr fun r => ?_
    simp only [resources_eq, attachments, List.count_append, List.count_cons, List.count_nil]
    omega
  refine ⟨
    { c with device := { d₄ with log := d₄.log ++ [.reloaded] }, shader, vertexArray := n }, _, ?_,
    ⟨holds₄.steady, holds₄.calls, holds₄.balanced.of_perm owned, holds₄.counted⟩,
    joined_iff holds₄.balanced.nodup⟩
  rw [reload, run_bind_ok (run_onDevice tried)]
  dsimp only
  rw [run_get_bind, run_notes (c := { c with device := d₁ }) holds₁.steady, run_modify_bind]
  have newly : (CanvasM.onDevice (makeVertexArray shader.program c.buffer)).run
      { c with
        device := (d₁.noting (.release (.vertexArray c.vertexArray))).noting
          (.release (.program c.shader.program))
        shader } = (.ok n, { c with device := d₄, shader }) := run_onDevice ran₄
  exact run_bind_ok newly

end Canvas

end Operations

end ShaderFlow
