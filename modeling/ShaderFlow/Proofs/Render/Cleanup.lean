import ShaderFlow.Proofs.Render.Lifetime

set_option autoImplicit false

/-
A window session starts up, opens a window and a context in it, and gives both back at its end. The
work between only makes calls of other sorts, also if one of them fails. So what is given back
depends on where a failure falls before the context is there.
-/

namespace ShaderFlow

open Work DeviceM

variable {start d : Device} {α : Type}

section Between

/-- Whether a call neither starts nor ends a session or a context. -/
def Call.isBetween : Call → Bool
  | startUp | shutDown | openContext _ | releaseContext => false
  | _ => true

/-- Whether a call opens a context. -/
def Call.opensContext : Call → Bool
  | openContext _ => true
  | _ => false

/-- Since some state, a device made only calls that neither start nor end anything. -/
def Device.Went (start d : Device) : Prop :=
  ∃ t, d.calls = start.calls ++ t ∧ (∀ call ∈ t, call.isBetween = true)

theorem Device.Went.refl (d : Device) : d.Went d :=
  ⟨[], (List.append_nil _).symm, fun _ none => absurd none List.not_mem_nil⟩

theorem Device.Went.notes {calls : List Call} (went : start.Went d)
    (between : ∀ call ∈ calls, call.isBetween = true) :
    start.Went { d with calls := d.calls ++ calls } := by
  obtain ⟨t, same, each⟩ := went
  refine ⟨t ++ calls, ?_,
    fun call member => (List.mem_append.mp member).elim (each call) (between call)⟩
  show d.calls ++ calls = _
  rw [same, List.append_assoc]

theorem Device.Went.note {call : Call} (went : start.Went d) (between : call.isBetween = true) :
    start.Went (d.noting call) :=
  went.notes (by simpa using between)

/-- A call is made, or fails and leaves no trace. -/
theorem run_perform_cases (call : Call) (d : Device) :
    d.faultAt = some d.calls.length ∧
        (perform call).run d = (.error .collaboratorFailed, { d with faultAt := none }) ∨
      d.faultAt ≠ some d.calls.length ∧ (perform call).run d = (.ok (), d.noting call) := by
  rw [perform, run_get_bind]
  by_cases fault : d.faultAt = some d.calls.length
  · rw [if_pos fault]
    exact .inl ⟨fault, rfl⟩
  · rw [if_neg fault]
    exact .inr ⟨fault, rfl⟩

namespace Device.Went

theorem preserves_perform {call : Call} (between : call.isBetween = true) :
    Preserves start.Went (perform call) := by
  intro d went
  rcases run_perform_cases call d with ⟨-, ran⟩ | ⟨-, ran⟩
  · rw [ran]
    exact went
  · rw [ran]
    exact went.note between

theorem preserves_tell (event : Event) : Preserves start.Went (tell event) :=
  Preserves.change fun _ went => went

theorem preserves_fail (e : Error) : Preserves start.Went (fail e : DeviceM α) := fun _ went => went

theorem preserves_absorb (work : Logged α) : Preserves start.Went (absorb work) :=
  fun _ went => went

theorem preserves_attempt {work : DeviceM α} (each : Preserves start.Went work) :
    Preserves start.Went (attempt work) := each

/-- A call and a change that makes none. -/
theorem preserves_made {call : Call} {f : Device → Device} {a : α} (between : call.isBetween = true)
    (same : ∀ d, (f d).calls = d.calls) :
    Preserves start.Went (do perform call; modify f; return a) := by
  refine (preserves_perform between).bind fun _ =>
    Preserves.bind (Preserves.change ?_) fun _ => .pure _
  intro d went
  obtain ⟨t, calls, each⟩ := went
  exact ⟨t, (same d).trans calls, each⟩

theorem preserves_now : Preserves start.Went now :=
  (preserves_perform rfl).bind fun _ => Preserves.get_bind fun _ went =>
    (Preserves.lift _).bind fun _ => (Preserves.lift _).bind fun _ =>
      Preserves.bind (fun _ _ => went) fun _ => .pure _

theorem preserves_isClosing : Preserves start.Went isClosing :=
  (preserves_perform rfl).bind fun _ => Preserves.get_bind fun _ _ => .pure _

theorem preserves_pollEvents : Preserves start.Went pollEvents := by
  refine (preserves_perform rfl).bind fun _ => Preserves.get_bind fun _ went =>
    Preserves.bind (fun _ _ => went) fun _ => (Preserves.lift _).bind fun events => ?_
  refine Preserves.forM (fun event => (Preserves.lift _).bind fun pair => ?_) events
  exact Preserves.ite ((preserves_perform rfl).bind fun _ =>
    Preserves.change fun _ went => went) (.pure _)

end Device.Went

namespace Canvas

open Device.Went

/-- Since some state of its device, a canvas made only calls that neither start nor end anything. -/
def Went (start : Device) (c : Canvas) : Prop := start.Went c.device

theorem preserves_onDevice {work : DeviceM α} (each : Preserves start.Went work) :
    Preserves (Went start) (CanvasM.onDevice work) := fun c went => each c.device went

theorem went_perform {call : Call} (between : call.isBetween = true) :
    Preserves (Went start) (CanvasM.perform call) :=
  preserves_onDevice (Device.Went.preserves_perform between)

theorem went_compile (source : String) : Preserves start.Went (compile source) := by
  refine Preserves.get_bind fun d _ => Preserves.ite ?_ ?_
  · exact (Device.Went.preserves_perform rfl).bind fun _ =>
      Preserves.bind (Preserves.change fun _ went => went) fun _ =>
        (preserves_tell _).bind fun _ => .pure _
  · exact (Device.Went.preserves_perform rfl).bind fun _ => (preserves_tell _).bind fun _ =>
      Device.Went.preserves_fail _

theorem went_makeBuffer : Preserves start.Went makeBuffer :=
  Preserves.get_bind fun _ _ => preserves_made rfl fun _ => rfl

theorem went_makeVertexArray (p b : Nat) : Preserves start.Went (makeVertexArray p b) :=
  Preserves.get_bind fun _ _ => preserves_made rfl fun _ => rfl

theorem went_makeTexture (width height components : Nat) :
    Preserves start.Went (makeTexture width height components) :=
  Preserves.get_bind fun _ _ => preserves_made rfl fun _ => rfl

theorem went_make (source : String) : Preserves start.Went (make source) :=
  (went_compile source).bind fun _ => went_makeBuffer.bind fun _ =>
    (went_makeVertexArray _ _).bind fun _ => .pure _

theorem went_reload (source : String) : Preserves (Went start) (reload source) := by
  refine (preserves_onDevice (preserves_attempt (went_compile source))).bind fun outcome => ?_
  split
  · exact (preserves_onDevice (preserves_tell _)).bind fun _ => .pure _
  · exact preserves_onDevice (Device.Went.preserves_fail _)
  · exact Preserves.get_bind fun _ _ => (went_perform rfl).bind fun _ =>
      (went_perform rfl).bind fun _ => Preserves.bind (Preserves.change fun _ went => went)
        fun _ => (preserves_onDevice (went_makeVertexArray _ _)).bind fun _ =>
          Preserves.bind (Preserves.change fun _ went => went) fun _ =>
            (preserves_onDevice (preserves_tell _)).bind fun _ => .pure _

theorem went_textureFor (width height components : Nat) :
    Preserves (Went start) (textureFor width height components) := by
  have newly : Preserves (Went start) (do
      let x ← CanvasM.onDevice (makeTexture width height components)
      modify fun c => { c with texture := some x }
      CanvasM.perform (.filterTexture x.number)
      CanvasM.perform (.clampAcross x.number)
      CanvasM.perform (.clampAlong x.number)
      return x) :=
    (preserves_onDevice (went_makeTexture _ _ _)).bind fun _ =>
      Preserves.bind (Preserves.change fun _ went => went) fun _ => (went_perform rfl).bind fun _ =>
        (went_perform rfl).bind fun _ => (went_perform rfl).bind fun _ => .pure _
  refine Preserves.get_bind fun c _ => ?_
  split
  · exact .pure _
  · split
    · exact (went_perform rfl).bind fun _ => newly
    · exact newly

theorem went_upload (r : Raster) : Preserves (Went start) (upload r) := by
  unfold upload
  split
  · exact (went_textureFor _ _ _).bind fun _ => (went_perform rfl).bind fun _ =>
      went_perform rfl
  · exact preserves_onDevice (Device.Went.preserves_fail _)

theorem went_draw (r : Raster) : Preserves (Went start) (draw r) := by
  refine (went_upload r).bind fun _ => Preserves.get_bind fun c _ =>
    (went_perform rfl).bind fun _ => ?_
  have last : Preserves (Went start) (if c.shader.uniforms.contains videoName then do
      CanvasM.perform (.setVideo c.shader.program)
      CanvasM.perform (.draw c.vertexArray)
    else CanvasM.perform (.draw c.vertexArray)) :=
    Preserves.ite ((went_perform rfl).bind fun _ => went_perform rfl) (went_perform rfl)
  exact Preserves.ite ((Preserves.lift _).bind fun _ => (went_perform rfl).bind fun _ => last) last

end Canvas

namespace Show

open Canvas Device.Went

theorem went_refresh (s : Show) (live : Live) : Preserves (Went start) (s.refresh live) := by
  unfold refresh
  split
  · exact .pure _
  · refine (went_perform rfl).bind fun _ => (preserves_onDevice (preserves_absorb _)).bind
      fun source => ?_
    split
    · exact (went_reload _).bind fun _ => .pure _
    · exact .pure _

theorem went_drawNext (s : Show) (live : Live) : Preserves (Went start) (s.drawNext live) :=
  (went_perform rfl).bind fun _ => (went_perform rfl).bind fun _ =>
    (preserves_onDevice (preserves_absorb _)).bind fun _ => (went_draw _).bind fun _ =>
      went_perform rfl

theorem went_loop (s : Show) (rounds : Nat) (live : Live) :
    Preserves (Went start) (s.loop rounds live) := by
  induction rounds generalizing live with
  | zero => exact .pure _
  | succ rounds ih =>
    refine (preserves_onDevice preserves_isClosing).bind fun closing => Preserves.ite (.pure _) ?_
    refine (preserves_onDevice preserves_now).bind fun current => (Preserves.lift _).bind
      fun reached => ?_
    split
    · exact (Preserves.lift _).bind fun _ => preserves_onDevice (preserves_tell _)
    · refine (Preserves.lift _).bind fun passed => (Preserves.lift _).bind fun seconds =>
        (preserves_onDevice preserves_pollEvents).bind fun _ =>
          (went_refresh s live).bind fun _ => ?_
      exact Preserves.ite ((went_drawNext s _).bind fun _ => ih _)
        ((went_perform rfl).bind fun _ => ih _)

theorem went_live (s : Show) (rounds : Nat) : Preserves (Went start) (s.live rounds) :=
  (Preserves.lift _).bind fun _ => (Preserves.lift _).bind fun _ => (went_perform rfl).bind
    fun _ => (preserves_onDevice preserves_now).bind fun _ =>
      (preserves_onDevice (preserves_tell _)).bind fun _ => went_loop s rounds _

end Show

end Between

section Opening

/-- Calls are all made, or all before the one that fails. -/
theorem run_performs (calls : List Call) (d : Device) :
    (∃ k < calls.length, d.faultAt = some (d.calls.length + k) ∧
        (calls.forM perform).run d = (.error .collaboratorFailed,
          { d with calls := d.calls ++ calls.take k, faultAt := none })) ∨
      (∀ k < calls.length, d.faultAt ≠ some (d.calls.length + k)) ∧
        (calls.forM perform).run d = (.ok (), { d with calls := d.calls ++ calls }) := by
  induction calls generalizing d with
  | nil =>
    refine .inr ⟨fun k below => absurd below (Nat.not_lt_zero k), ?_⟩
    rw [List.append_nil]
    rfl
  | cons call calls ih =>
    have unfolded : (call :: calls).forM perform =
        (perform call >>= fun _ => calls.forM perform) := rfl
    rw [unfolded]
    rcases run_perform_cases call d with ⟨fault, ran⟩ | ⟨sound, ran⟩
    · refine .inl ⟨0, by simp, fault, ?_⟩
      rw [run_bind_error ran, List.take_zero, List.append_nil]
    · have length : (d.noting call).calls.length = d.calls.length + 1 := by simp [Device.noting]
      rw [run_bind_ok ran]
      rcases ih (d.noting call) with ⟨k, below, fault, rest⟩ | ⟨none, rest⟩
      · refine .inl ⟨k + 1, by simpa using below, ?_, ?_⟩
        · rw [length] at fault
          exact fault.trans (by rw [Nat.add_assoc, Nat.add_comm 1 k])
        · rw [rest, List.take_succ_cons]
          simp [Device.noting]
      · refine .inr ⟨fun k below => ?_, ?_⟩
        · cases k with
          | zero => exact sound
          | succ k =>
            have later := none k (by simpa using below)
            rw [length] at later
            rwa [Nat.add_assoc, Nat.add_comm 1 k] at later
        · rw [rest]
          simp [Device.noting]

theorem run_onFailure_ok {work : DeviceM α} {more : Error → DeviceM Unit} {a : α} {d' : Device}
    (ran : work.run d = (.ok a, d')) : (onFailure work more).run d = (.ok a, d') := by
  have tried := run_attempt work d
  rw [ran] at tried
  rw [onFailure, run_bind_ok tried]
  rfl

theorem run_onFailure_error {work : DeviceM α} {more : Error → DeviceM Unit} {e : Error}
    {d' d'' : Device} (ran : work.run d = (.error e, d'))
    (after : (more e).run d' = (.ok (), d'')) :
    (onFailure work more).run d = (.error e, d'') := by
  have tried := run_attempt work d
  rw [ran] at tried
  rw [onFailure, run_bind_ok tried]
  exact run_bind_ok after

namespace Window

/-- Whether asking for a window may succeed. -/
def mayOpen (size : List Json) (d : Device) : Bool :=
  decide (2 ≤ size.length) && d.surroundings.opensWindow

/-- The calls that ask for a window. -/
def asking (runtime : Runtime) (size : List Json) (title : Json) : List Call :=
  [.hintMajor runtime.major, .hintMinor runtime.minor, .hintProfile runtime.profile,
      .hintForward] ++
    if 2 ≤ size.length then
      [.openWindow (size.getD 0 .null).bare (size.getD 1 .null).bare title.bare]
    else []

theorem asking_isBetween (runtime : Runtime) (size : List Json) (title : Json) :
    ∀ call ∈ asking runtime size title, call.isBetween = true := by
  unfold asking
  split <;> simp [Call.isBetween]

/-- Fails if the window was refused. -/
def confirm : DeviceM Unit := do if !(← get).surroundings.opensWindow then fail .windowFailed

theorem run_confirm (d : Device) :
    confirm.run d = (if d.surroundings.opensWindow then .ok () else .error .windowFailed, d) := by
  rw [confirm, run_get_bind]
  cases d.surroundings.opensWindow <;> rfl

/-- Asking for a window is making these calls, after which it may be refused. -/
theorem exists_openWindow_eq (runtime : Runtime) (size : List Json) (title : Json) :
    ∃ finish : DeviceM Unit,
      openWindow runtime size title =
          ((asking runtime size title).forM perform >>= fun _ => finish) ∧
      ∀ d, ∃ e, finish.run d = (if mayOpen size d then .ok () else .error e, d) := by
  have short : ∀ d : Device, ∃ e,
      ((fail (.misuse .item "tuple index out of range") : DeviceM Unit) >>=
        fun _ => confirm).run d = (.error e, d) :=
    fun d => ⟨.misuse .item "tuple index out of range", rfl⟩
  rcases size with _ | ⟨width, _ | ⟨height, rest⟩⟩
  · exact ⟨_, by simp [openWindow, asking, confirm], short⟩
  · exact ⟨_, by simp [openWindow, asking, confirm], short⟩
  · refine ⟨confirm, by simp [openWindow, asking, confirm], fun d => ⟨.windowFailed, ?_⟩⟩
    rw [run_confirm]
    simp [mayOpen]

theorem length_asking_le (runtime : Runtime) (size : List Json) (title : Json) :
    (asking runtime size title).length ≤ 5 := by
  unfold asking
  split <;> simp

theorem length_asking {size : List Json} (mayOpen : mayOpen size d = true) (runtime : Runtime)
    (title : Json) : (asking runtime size title).length = 5 := by
  have long : 2 ≤ size.length := by simpa using (Bool.and_eq_true_iff.mp mayOpen).1
  rw [asking, if_pos long]
  rfl

/-- A window opens unless it may not or one of the calls fails. -/
theorem run_openWindow (runtime : Runtime) (size : List Json) (title : Json) (d : Device) :
    mayOpen size d = true ∧ (openWindow runtime size title).run d =
        (.ok (), { d with calls := d.calls ++ asking runtime size title }) ∨
      (mayOpen size d = false ∨ ∃ k < 5, d.faultAt = some (d.calls.length + k)) ∧
        ∃ e t fault, (∀ call ∈ t, Call.isBetween call = true) ∧
          (openWindow runtime size title).run d =
            (.error e, { d with calls := d.calls ++ t, faultAt := fault }) := by
  obtain ⟨finish, steps, ends⟩ := exists_openWindow_eq runtime size title
  have between := asking_isBetween runtime size title
  rw [steps]
  rcases run_performs (asking runtime size title) d with ⟨k, below, fault, ran⟩ | ⟨-, ran⟩
  · have bound := length_asking_le runtime size title
    refine .inr ⟨.inr ⟨k, by omega, fault⟩, _, _, _, ?_, run_bind_error ran⟩
    exact fun call member => between call (List.mem_of_mem_take member)
  · obtain ⟨e, last⟩ := ends { d with calls := d.calls ++ asking runtime size title }
    have same : mayOpen size { d with calls := d.calls ++ asking runtime size title } =
        mayOpen size d := rfl
    rw [run_bind_ok ran, last, same]
    cases mayOpen size d with
    | true => exact .inl ⟨rfl, rfl⟩
    | false => exact .inr ⟨.inl rfl, e, _, d.faultAt, between, rfl⟩

/-- The session calls among some: how often it was ended, and how often a context was opened and
given back. -/
structure Tally (t : List Call) (ended opened returned : Nat) : Prop where
  ended : t.count .shutDown = ended
  opened : t.countP Call.opensContext = opened
  returned : t.count .releaseContext = returned

theorem Tally.append {t u : List Call} {a b c a' b' c' : Nat} (first : Tally t a b c)
    (second : Tally u a' b' c') : Tally (t ++ u) (a + a') (b + b') (c + c') := by
  refine ⟨?_, ?_, ?_⟩
  · rw [List.count_append, first.ended, second.ended]
  · rw [List.countP_append, first.opened, second.opened]
  · rw [List.count_append, first.returned, second.returned]

theorem tally_between {t : List Call} (between : ∀ call ∈ t, call.isBetween = true) :
    Tally t 0 0 0 := by
  refine ⟨List.count_eq_zero.mpr fun member => ?_, List.countP_eq_zero.mpr fun call member => ?_,
    List.count_eq_zero.mpr fun member => ?_⟩
  · exact absurd (between _ member) (by decide)
  · have ordinary := between call member
    cases call with
    | openContext version => cases ordinary
    | _ => exact Bool.false_ne_true
  · exact absurd (between _ member) (by decide)

/-- Whether starting up succeeds. -/
def startsUp (d : Device) : Bool := d.surroundings.startsUp && d.faultAt != some d.calls.length

/-- Whether, on a device that has started up, a call fails while there is a window but no context
yet. Asking for the window takes five calls, and there are three more until there is a context. -/
def isStranded (size : List Json) (d : Device) : Bool :=
  mayOpen size d && [5, 6, 7].any fun k => d.faultAt == some (d.calls.length + k)

/-- Opens a window and a context in it, after the start. -/
def enter (runtime : Runtime) (size : List Json) (title : Json) : DeviceM Unit := do
  onFailure (openWindow runtime size title) fun e => do
    tell (.windowError e)
    cleanUp .shutDown
  [Call.makeCurrent, .listenKeys, .openContext none].forM perform

theorem openContext_eq (runtime : Runtime) (size : List Json) (title : Json) :
    openContext runtime size title = (do
      perform .startUp
      if !(← get).surroundings.startsUp then fail .initFailed
      enter runtime size title) := by
  simp [openContext, enter]

/-- A context is there at the end, or the session was ended, but for a failure while there was a
window and no context. -/
theorem run_enter (runtime : Runtime) (size : List Json) (title : Json) (d : Device) :
    ∃ t d', d'.calls = d.calls ++ t ∧
      ((∃ e, (enter runtime size title).run d = (.error e, d') ∧
          Tally t (!isStranded size d).toNat 0 0) ∨
        (enter runtime size title).run d = (.ok (), d') ∧ isStranded size d = false ∧
          Tally t 0 1 0) := by
  rw [enter]
  rcases run_openWindow runtime size title d with ⟨may, ran⟩ | ⟨reason, e, t, fault, between, ran⟩
  · have five := length_asking may runtime title
    have asked := tally_between (asking_isBetween runtime size title)
    rw [run_bind_ok (run_onFailure_ok ran)]
    rcases run_performs [.makeCurrent, .listenKeys, .openContext none]
        { d with calls := d.calls ++ asking runtime size title }
      with ⟨k, below, failed, last⟩ | ⟨sound, last⟩
    · have position : d.faultAt = some (d.calls.length + 5 + k) := by simpa [five] using failed
      obtain rfl | rfl | rfl : k = 0 ∨ k = 1 ∨ k = 2 := by
        have bound : k < 3 := below
        omega
      all_goals
        have stranded : isStranded size d = true := by simp [isStranded, may, position]
        refine ⟨_ ++ List.take _ _, _, List.append_assoc _ _ _, .inl ⟨_, last, ?_⟩⟩
        rw [stranded]
        exact asked.append ⟨rfl, rfl, rfl⟩
    · have sound' : ∀ k < 3, d.faultAt ≠ some (d.calls.length + 5 + k) := by
        intro k below
        simpa [five] using sound k below
      have ordered : isStranded size d = false := by
        simp [isStranded, may, sound' 0 (by decide), sound' 1 (by decide), sound' 2 (by decide)]
      refine ⟨_ ++ [_, _, _], _, List.append_assoc _ _ _, .inr ⟨last, ordered, ?_⟩⟩
      exact asked.append ⟨rfl, rfl, rfl⟩
  · have ordered : isStranded size d = false := by
      rcases reason with not | ⟨k, below, failed⟩
      · simp [isStranded, not]
      · simp [isStranded, failed]
        omega
    refine ⟨t ++ [.shutDown], _, ?_, .inl ⟨e, run_bind_error (run_onFailure_error ran rfl), ?_⟩⟩
    · exact List.append_assoc _ _ _
    · rw [ordered]
      exact (tally_between between).append ⟨rfl, rfl, rfl⟩

/-- A context is there at the end, or the session failed before. Then it was ended if it had
started, but for a failure while there was a window and no context. -/
theorem run_openContext (runtime : Runtime) (size : List Json) (title : Json) (d : Device) :
    ∃ t d', d'.calls = d.calls ++ t ∧
      ((∃ e, (openContext runtime size title).run d = (.error e, d') ∧
          Tally t (startsUp d && !isStranded size (d.noting .startUp)).toNat 0 0) ∨
        (openContext runtime size title).run d = (.ok (), d') ∧
          (startsUp d && !isStranded size (d.noting .startUp)) = true ∧ Tally t 0 1 0) := by
  rw [openContext_eq]
  rcases run_perform_cases .startUp d with ⟨fault, ran⟩ | ⟨sound, ran⟩
  · have never : startsUp d = false := by simp [startsUp, fault]
    refine ⟨[], { d with faultAt := none }, (List.append_nil _).symm,
      .inl ⟨_, run_bind_error ran, ?_⟩⟩
    rw [never]
    exact ⟨rfl, rfl, rfl⟩
  rw [run_bind_ok ran, run_get_bind]
  cases starts : d.surroundings.startsUp with
  | false =>
    have never : startsUp d = false := by simp [startsUp, starts]
    have refused : (!(d.noting .startUp).surroundings.startsUp) = true := by
      show (!d.surroundings.startsUp) = true
      rw [starts]
      rfl
    refine ⟨[.startUp], d.noting .startUp, rfl, .inl ⟨.initFailed, ?_, ?_⟩⟩
    · simp only [refused, if_true]
      rfl
    · rw [never]
      exact ⟨rfl, rfl, rfl⟩
  | true =>
    have started : startsUp d = true := by simp [startsUp, starts, sound]
    have accepted : (!(d.noting .startUp).surroundings.startsUp) = false := by
      show (!d.surroundings.startsUp) = false
      rw [starts]
      rfl
    obtain ⟨t, d', calls, result⟩ := run_enter runtime size title (d.noting .startUp)
    have one : Tally [.startUp] 0 0 0 := ⟨rfl, rfl, rfl⟩
    refine ⟨[.startUp] ++ t, d', ?_, ?_⟩
    · rw [calls, ← List.append_assoc]
      rfl
    · simp only [accepted, started, Bool.true_and]
      rcases result with ⟨e, ran, tally⟩ | ⟨ran, ordered, tally⟩
      · exact .inl ⟨e, ran, by simpa using one.append tally⟩
      · exact .inr ⟨ran, by rw [ordered]; rfl, one.append tally⟩

theorem calls_close (d : Device) :
    ((close true).run d).2.calls = d.calls ++ [.releaseContext, .shutDown] := by
  show d.calls ++ [.releaseContext] ++ [.shutDown] = _
  rw [List.append_assoc]
  rfl

/-- Context and window are given back after the work, whatever becomes of that. -/
theorem calls_withCanvas {work : CanvasM α}
    (each : ∀ start : Device, Preserves (Canvas.Went start) work)
    (source : String) (size : List Json) (d : Device) :
    ∃ t, (∀ call ∈ t, Call.isBetween call = true) ∧
      ((withCanvas source size true work).run d).2.calls =
        d.calls ++ (t ++ [.releaseContext, .shutDown]) := by
  have closed : ∀ {d' : Device}, d.Went d' → ∃ t, (∀ call ∈ t, Call.isBetween call = true) ∧
      ((close true).run d').2.calls = d.calls ++ (t ++ [.releaseContext, .shutDown]) := by
    intro d' went
    obtain ⟨t, calls, between⟩ := went
    exact ⟨t, between, by rw [calls_close, calls, List.append_assoc]⟩
  have went : d.Went ((Canvas.make source).run d).2 := Canvas.went_make source d (.refl d)
  cases made : (Canvas.make source).run d with
  | mk outcome d₁ =>
    rw [made] at went
    cases outcome with
    | error e =>
      have new : Canvas.new source size d = .error (e, d₁) := by rw [Canvas.new, made]
      have ran : (withCanvas source size true work).run d =
          (.error e, ((close true).run d₁).2) := by
        rw [withCanvas, ExceptT.run_mk, new]
      rw [ran]
      exact closed went
    | ok parts =>
      obtain ⟨shader, buffer, vertexArray⟩ := parts
      have new : Canvas.new source size d =
          .ok { device := d₁, size, shader, buffer, vertexArray } := by
        rw [Canvas.new, made]
      have worked := each d { device := d₁, size, shader, buffer, vertexArray } went
      cases ran : work.run { device := d₁, size, shader, buffer, vertexArray } with
      | mk outcome c =>
        rw [ran] at worked
        have all : (withCanvas source size true work).run d =
            (outcome, ((close true).run (Canvas.release.run c).2.device).2) := by
          rw [withCanvas, ExceptT.run_mk, new]
          dsimp only
          rw [ran]
          rfl
        rw [all, Canvas.run_release]
        exact closed (worked.notes (by simp [Call.isBetween]))

end Window

namespace Show

/-- A session that started up is ended exactly once, unless a call fails while there is a window and
no context yet: then it is not ended. A session that did not start up is not ended either. At most
one context is opened, and what is opened is given back once. This is so for any number of rounds,
and whichever call fails. -/
theorem run_gives_back (s : Show) (rounds : Nat) (d : Device) :
    ∃ t, ((s.run rounds).run d).2.calls = d.calls ++ t ∧
      t.count .shutDown =
        (Window.startsUp d && !Window.isStranded s.size (d.noting .startUp)).toNat ∧
      t.countP Call.opensContext ≤ 1 ∧ t.count .releaseContext = t.countP Call.opensContext := by
  obtain ⟨runtime, known⟩ : ∃ runtime, Target.opengl33.runtime = .ok runtime := ⟨_, rfl⟩
  have lifted : (liftM Target.opengl33.runtime : DeviceM Runtime).run d = (.ok runtime, d) := by
    rw [known]
    rfl
  rw [run, run_bind_ok lifted]
  obtain ⟨t, d', calls, ⟨e, ran, tally⟩ | ⟨ran, ordered, tally⟩⟩ :=
    Window.run_openContext runtime s.size s.title d
  · rw [run_bind_error ran]
    refine ⟨t, calls, tally.ended, ?_, ?_⟩
    · rw [tally.opened]
      exact Nat.zero_le 1
    · rw [tally.opened, tally.returned]
  · obtain ⟨u, between, closed⟩ :=
      Window.calls_withCanvas (fun _ => s.went_live rounds) s.source s.size d'
    have all := tally.append ((Window.tally_between between).append
      (⟨rfl, rfl, rfl⟩ : Window.Tally [.releaseContext, .shutDown] 1 0 1))
    rw [run_bind_ok ran]
    refine ⟨t ++ (u ++ [.releaseContext, .shutDown]), closed.trans ?_, ?_, ?_, ?_⟩
    · rw [calls, List.append_assoc]
    · rw [all.ended, ordered]
      rfl
    · exact Nat.le_of_eq all.opened
    · rw [all.opened, all.returned]

-- The ninth call opens the context in the window. If it fails, the session is not ended.
example :
    let s : Show := { source := "", frame := fun _ => .ofExcept (.error .windowFailed) }
    ((s.run 1).run { faultAt := some 8 }).2.calls.count .shutDown = 0 := by
  decide +kernel

end Show

end Opening

end ShaderFlow
