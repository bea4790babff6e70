import ShaderFlow.Proofs.Session.Board
import ShaderFlow.Proofs.Session.History

set_option autoImplicit false

namespace ShaderFlow

variable {ι : Type} [BEq ι] [NodeId ι]

/-- What can happen to a session whose tasks may be cancelled. -/
inductive Move (ι : Type) where
  | turn (turn : Turn ι)
  | cancel (task : Nat)
  /-- Somebody waits for all scheduled tasks. -/
  | gather (owner : Signal)
  /-- Somebody waits for one task. -/
  | watch (task : Nat)

namespace Session

section Moves

def act (s : Session ι) : Move ι → Session ι
  | .turn turn => s.take turn
  | .cancel t => (s.cancel t).1
  | .gather owner => (s.gatherAll owner).1
  | .watch t => s.modifyTask t fun task =>
      { task with observers := task.observers ++ [.signal .caller] }

/-- The session after some moves. -/
def actAll (s : Session ι) (moves : List (Move ι)) : Session ι := moves.foldl act s

/-- What continuing a task does to a pass. A new task opens one. A task that is cancelled while it
waits leaves the one it opened behind. -/
def deedOf? (s : Session ι) (t : Nat) : Option Deed :=
  match s.task? t with
  | none => none
  | some task =>
    match task.stage with
    | .fresh _ => if task.cancelRequested then none else some (.opens t (s.passes.length + 1))
    | .waiting k _ wake =>
      if task.cancelRequested || wake == .cancelled then some (.abandons t k) else none
    | _ => none

def deed? (s : Session ι) : Move ι → Option Deed
  | .turn (.job i) =>
    match s.queue[i]? with
    | some (.resume t) => s.deedOf? t
    | _ => none
  | _ => none

/-- What the tasks do to the passes over some moves. -/
def deeds (s : Session ι) : List (Move ι) → List Deed
  | [] => []
  | move :: rest => (s.deed? move).toList ++ (s.act move).deeds rest

theorem actAll_snoc (s : Session ι) (moves : List (Move ι)) (move : Move ι) :
    s.actAll (moves ++ [move]) = (s.actAll moves).act move := by
  rw [actAll, List.foldl_append, List.foldl_cons, List.foldl_nil, actAll]

theorem deeds_snoc (s : Session ι) (moves : List (Move ι)) (move : Move ι) :
    s.deeds (moves ++ [move]) = s.deeds moves ++ ((s.actAll moves).deed? move).toList := by
  induction moves generalizing s with
  | nil => simp [deeds, actAll]
  | cons first rest ih =>
    rw [List.cons_append, deeds, ih, deeds, List.append_assoc]
    rfl

end Moves

section Board

variable {s : Session ι} {t k : Nat}

omit [BEq ι] [NodeId ι]

def board (s : Session ι) : Board where
  count := s.passes.length
  pass? := s.pass?
  post? t := (s.stage? t).map Stage.post
  dues := s.dues

theorem board_modifyTask {task : Task ι} (there : s.task? t = some task) (f : Task ι → Task ι) :
    (s.modifyTask t f).board = s.board.setPost t (f task).stage.post := by
  have posts : ∀ u, ((s.modifyTask t f).stage? u).map Stage.post =
      if u = t then some (f task).stage.post else (s.stage? u).map Stage.post := by
    intro u
    rw [stage?_modifyTask]
    split
    · rename_i same
      rw [same, there]
      rfl
    · rfl
  simp only [board, Board.setPost, Board.mk.injEq]
  exact ⟨rfl, rfl, funext posts, rfl⟩

theorem board_modifyTask_same {f : Task ι → Task ι} (same : ∀ task, (f task).stage = task.stage) :
    (s.modifyTask t f).board = s.board := by
  have stages : (s.modifyTask t f).stage? = s.stage? := by
    funext u
    rw [stage?_modifyTask]
    simp only [same]
    split <;> rfl
  simp only [board, stages]
  rfl

theorem board_push (s : Session ι) (jobs : List Job) : (s.push jobs).board =
    { s.board with dues := fun u => s.dues u + jobs.count (.resume u) } := by
  simp only [board, stage?_push, Board.mk.injEq]
  exact ⟨rfl, rfl, trivial, funext fun u => s.dues_push jobs u⟩

theorem board_push_calm {jobs : List Job} (calm : ∀ u, .resume u ∉ jobs) :
    (s.push jobs).board = s.board := by
  rw [board_push]
  simp only [List.count_eq_zero_of_not_mem (calm _)]
  rfl

theorem board_modifyPass {f : Pass → Pass} (keeps : ∀ p, (f p).id = p.id) {p : Pass}
    (found : s.pass? k = some p) : (s.modifyPass k f).board = s.board.setPass k (f p) := by
  have passes : ∀ j, (s.modifyPass k f).pass? j = if j = k then some (f p) else s.pass? j := by
    intro j
    rw [pass?_modifyPass s k keeps]
    split
    · rename_i same
      rw [same, found]
      rfl
    · rfl
  simp only [board, Board.setPass, Board.mk.injEq]
  exact ⟨List.length_map .., funext passes, rfl, rfl⟩

theorem board_addPass (numbered : s.Numbered) : s.addPass.board = s.board.addPass := by
  simp only [board, Board.addPass, Board.setPass, Board.mk.injEq]
  exact ⟨by simp [addPass], funext numbered.pass?_addPass, rfl, rfl⟩

theorem board_wakeWaiter (s : Session ι) (t : Nat) :
    (s.wakeWaiter t).board = s.board.rouse [t] := by
  unfold wakeWaiter
  split
  · rename_i pass selector there
    obtain ⟨task, present, stage⟩ := stage?_eq_some.mp there
    have asleep : s.board.post? t = some (.waiting pass .asleep) :=
      congrArg (Option.map Stage.post) there
    rw [board_push, board_modifyTask present, Board.rouse_single asleep]
    simp only [count_resume]
    rfl
  · rename_i other
    refine (Board.rouse_of_awake fun u member post there => ?_).symm
    rw [List.mem_singleton.mp member] at there
    obtain ⟨stage, found, rfl⟩ := Option.map_eq_some_iff.mp there
    cases asleep : stage.post.isAsleep with
    | false => rfl
    | true =>
      obtain ⟨k, same⟩ := Post.isAsleep_iff.mp asleep
      cases stage with
      | waiting pass selector wake =>
        cases same
        exact absurd found (other _ _)
      | _ => cases same

theorem board_wakes (s : Session ι) (ts : List Nat) :
    (ts.foldl wakeWaiter s).board = s.board.rouse ts := by
  induction ts generalizing s with
  | nil => exact (Board.rouse_of_awake (by simp)).symm
  | cons t ts ih => rw [List.foldl_cons, ih, board_wakeWaiter, Board.rouse_cons]

theorem board_acknowledge {p : Pass} (found : s.pass? k = some p) : (s.acknowledge k).board =
    (s.board.setPass k { p with done := true, waiters := [] }).rouse p.waiters := by
  rw [acknowledge, found]
  exact (board_wakes _ _).trans (by rw [board_modifyPass (by simp) found])

theorem board_endTask {task : Task ι} (there : s.task? t = some task)
    (calm : ∀ u, .resume u ∉ task.observers) (outcome : TaskOutcome) :
    (s.endTask t outcome).board = s.board.setPost t .ended := by
  rw [endTask_eq there, board_push_calm calm, board_modifyTask there]
  rfl

end Board

section Calm

variable {s : Session ι} {t k : Nat}

omit [BEq ι] [NodeId ι]

/-- No task starts another one when it ends. -/
def Calm (s : Session ι) : Prop := ∀ t task, s.task? t = some task → ∀ u, .resume u ∉ task.observers

theorem Calm.modifyTask (calm : s.Calm) {f : Task ι → Task ι} (keeps : ∀ task,
    (∀ u, .resume u ∉ task.observers) → ∀ u, .resume u ∉ (f task).observers) :
    (s.modifyTask t f).Calm :=
  fun _ _ found => of_task?_modifyTask found (calm _ _) keeps

theorem Calm.wakes (calm : s.Calm) (ts : List Nat) : (ts.foldl wakeWaiter s).Calm := by
  induction ts generalizing s with
  | nil => exact calm
  | cons t ts ih =>
    refine ih ?_
    unfold wakeWaiter
    split
    · exact calm.modifyTask fun _ quiet => quiet
    · exact calm

theorem Calm.acknowledge (calm : s.Calm) (k : Nat) : (s.acknowledge k).Calm := by
  unfold Session.acknowledge
  split
  · exact Calm.wakes (s := s.modifyPass k _) calm _
  · exact calm

theorem Calm.endTask (calm : s.Calm) (t : Nat) (outcome : TaskOutcome) :
    (s.endTask t outcome).Calm := by
  unfold Session.endTask
  split
  · exact calm.modifyTask (by simp)
  · exact calm

end Calm

section InHand

variable {s s' : Session ι} {t k : Nat} {ds : List Deed}

omit [BEq ι] [NodeId ι]

/-- The passes and tasks of a session agree with what the tasks did. -/
structure Booked (s : Session ι) (ds : List Deed) : Prop where
  numbered : s.Numbered
  calm : s.Calm
  ledger : Ledger s.board ds

/-- A task is in the middle of its pass, whatever its stage says. -/
structure InHand (s : Session ι) (t k : Nat) (ds : List Deed) : Prop where
  numbered : s.Numbered
  calm : s.Calm
  present : ∃ post, s.board.post? t = some post ∧ post.isAsleep = false
  free : s.dues t = 0
  ledger : Ledger (s.board.setPost t (.running k)) ds

theorem exists_task_of_post {post : Post} (there : s.board.post? t = some post) :
    ∃ task, s.task? t = some task := by
  obtain ⟨stage, found, -⟩ := Option.map_eq_some_iff.mp there
  obtain ⟨task, present, -⟩ := stage?_eq_some.mp found
  exact ⟨task, present⟩

theorem InHand.exists_pass (hand : InHand s t k ds) : ∃ p, s.pass? k = some p := by
  have opens := hand.ledger.holds (t := t) (if_pos rfl) (k := k) rfl
  exact (hand.ledger.numbered k).mpr (hand.ledger.opened opens)

theorem InHand.suspend (hand : InHand s t k ds) (e : Evaluation ι) (count : Nat) :
    Booked (s.suspend t k e count) ds ∧
    (s.suspend t k e count).board.post? t = some (.running k) := by
  obtain ⟨post, there, -⟩ := hand.present
  obtain ⟨task, present⟩ := exists_task_of_post there
  have board : (s.suspend t k e count).board = { s.board.setPost t (.running k) with
      dues := fun u => s.dues u + if u = t then 1 else 0 } := by
    rw [Session.suspend, board_push, board_modifyTask present]
    simp only [count_resume]
    rfl
  refine ⟨⟨hand.numbered, hand.calm.modifyTask fun _ quiet => quiet, ?_⟩,
    by rw [board]; exact if_pos rfl⟩
  rw [board]
  exact hand.ledger.enqueue (if_pos rfl) rfl hand.free

/-- Settling a pass: it is done, its task ends, those who wait for it are woken and it forgets them.
-/
theorem board_settle {p : Pass} (found : s.pass? k = some p) (calm : s.Calm) {post : Post}
    (there : s.board.post? t = some post) (awake : post.isAsleep = false) (state : PassState)
    (outcome : TaskOutcome) : (s.settle t k state outcome).board =
      (((s.board.setPass k { p with state, done := true }).setPost t .ended).rouse
        p.waiters).setPass k { p with state, done := true, waiters := [] } := by
  have marked : (s.modifyPass k fun p => { p with state }).pass? k = some { p with state } := by
    rw [pass?_modifyPass s k (by simp), if_pos rfl, found]
    rfl
  have board : ((s.modifyPass k fun p => { p with state }).acknowledge k).board =
      (s.board.setPass k { p with state, done := true, waiters := [] }).rouse p.waiters := by
    rw [board_acknowledge marked, board_modifyPass (by simp) found, Board.setPass_setPass]
  have calm' := Calm.acknowledge (s := s.modifyPass k fun p => { p with state }) calm k
  obtain ⟨post', there'⟩ : ∃ post',
      ((s.modifyPass k fun p => { p with state }).acknowledge k).board.post? t = some post' := by
    rw [board, Board.post?_rouse, Board.post?_setPass, there]
    split
    · exact ⟨_, rfl⟩
    · exact ⟨_, rfl⟩
  obtain ⟨task, present⟩ := exists_task_of_post there'
  rw [Session.settle, board_endTask present (calm' t task present), board,
    Board.setPost_rouse (b := s.board.setPass k _) there awake]
  exact congrArg (fun b => (b.setPost t .ended).rouse p.waiters) (Board.setPass_setPass ..).symm

theorem passes_wakes (s : Session ι) (ts : List Nat) :
    (ts.foldl wakeWaiter s).passes = s.passes := by
  induction ts generalizing s with
  | nil => rfl
  | cons t ts ih =>
    obtain ⟨tasks, queue, same⟩ := s.wakeWaiter_frame t
    rw [List.foldl_cons, ih, same]

theorem Numbered.congr (numbered : s.Numbered) (same : s'.passes = s.passes) : s'.Numbered := by
  rw [Numbered, same]
  exact numbered

theorem Numbered.acknowledge (numbered : s.Numbered) (k : Nat) : (s.acknowledge k).Numbered := by
  unfold Session.acknowledge
  split
  · exact (numbered.modifyPass k (by simp)).congr (passes_wakes ..)
  · exact numbered

theorem Numbered.endTask (numbered : s.Numbered) (t : Nat) (outcome : TaskOutcome) :
    (s.endTask t outcome).Numbered := by
  obtain ⟨tasks, queue, same, -⟩ := s.endTask_frame t outcome
  exact numbered.congr (by rw [same])

theorem InHand.settle (hand : InHand s t k ds) (state : PassState) (outcome : TaskOutcome) :
    Booked (s.settle t k state outcome) ds ∧
      (s.settle t k state outcome).board.post? t = some .ended := by
  obtain ⟨p, found⟩ := hand.exists_pass
  obtain ⟨post, there, awake⟩ := hand.present
  have board := board_settle found hand.calm there awake state outcome
  have running : (s.board.setPost t (.running k)).post? t = some (.running k) := if_pos rfl
  have stays : .abandons t k ∉ ds := by
    cases hand.ledger.stands_of_post running rfl found with
    | running undone stays => exact stays
  have finished :
      Ledger ((s.board.setPass k { p with state, done := true }).setPost t .ended) ds := by
    have moved : Ledger (((s.board.setPost t (.running k)).setPass k
        { p with state, done := true }).setPost t .ended) ds :=
      hand.ledger.advance running rfl found nofun (.inr rfl) rfl (fun _ => rfl)
        (fun j q next before => hand.ledger.front (t := t) (.inr (by rw [running, next])) before)
        (.settled rfl stays)
    rwa [show (s.board.setPost t (.running k)).setPass k { p with state, done := true } =
      (s.board.setPass k { p with state, done := true }).setPost t (.running k) from rfl,
      Board.setPost_setPost] at moved
  have done : ((s.board.setPass k { p with state, done := true }).setPost t .ended).pass? k =
      some { p with state, done := true } := if_pos rfl
  refine ⟨⟨?_, ?_, ?_⟩, ?_⟩
  · exact ((hand.numbered.modifyPass k (by simp)).acknowledge k).endTask t outcome
  · exact Calm.endTask
      (Calm.acknowledge (s := s.modifyPass k fun p => { p with state }) hand.calm k) t _
  · rw [board]
    exact (finished.rouse done rfl).setWaiters done rfl rfl (by simp)
  · rw [board, Board.post?_setPass, Board.post?_rouse, Board.post?_setPost, if_pos rfl]
    split <;> rfl

theorem board_queueUp {previous : Pass} {post : Post} (numbered : s.Numbered)
    (there : s.board.post? t = some post) (last : s.pass? s.passes.length = some previous)
    (given : Option Json) : (s.queueUp t previous given).board =
      (s.board.addPass.setPost t (.waiting (s.passes.length + 1) .asleep)).setPass s.passes.length
        { previous with cancelled := true, waiters := previous.waiters ++ [t] } := by
  obtain ⟨task, present⟩ := exists_task_of_post there
  have named : previous.id = s.passes.length := by simpa using List.find?_some last
  have found : s.addPass.pass? s.passes.length = some previous := by
    rw [numbered.pass?_addPass, if_neg (by omega), last]
  have marked : (s.addPass.modifyPass previous.id fun p =>
      { p with cancelled := true, waiters := p.waiters ++ [t] }).board =
      s.board.addPass.setPass s.passes.length
        { previous with cancelled := true, waiters := previous.waiters ++ [t] } := by
    rw [show s.addPass.modifyPass previous.id (fun p =>
        { p with cancelled := true, waiters := p.waiters ++ [t] }) =
          s.addPass.modifyPass s.passes.length _
      from congrArg (fun k => s.addPass.modifyPass k _) named, board_modifyPass (by simp) found,
      board_addPass numbered]
  rw [queueUp, board_modifyTask (s := s.addPass.modifyPass previous.id _) present, marked]
  rfl

/-- A task whose turn it is takes its pass in hand. -/
theorem inHand_begin (numbered : s.Numbered) (calm : s.Calm)
    (present : ∃ post, s.board.post? t = some post ∧ post.isAsleep = false) (free : s.dues t = 0)
    (ledger : Ledger (s.board.setPost t (.waiting k .ready)) ds) : InHand (s.begin k) t k ds := by
  have ready : (s.board.setPost t (.waiting k .ready)).post? t = some (.waiting k .ready) :=
    if_pos rfl
  obtain ⟨p, found⟩ := (ledger.numbered k).mpr (ledger.opened (ledger.holds ready rfl))
  have found : s.pass? k = some p := found
  have board : (s.begin k).board = s.board.setPass k { p with state := .running } := by
    rw [Session.begin, board_modifyPass (by simp) found]
  refine ⟨numbered.modifyPass k (by simp), calm, present, free, ?_⟩
  have running : Stands ds t k { p with state := .running } (.running k) := by
    cases ledger.stands_of_post ready rfl found with
    | waiting undone idle stays => exact .running undone stays
  have moved : Ledger (((s.board.setPost t (.waiting k .ready)).setPass k
      { p with state := .running }).setPost t (.running k)) ds :=
    ledger.advance ready rfl found (by simp) (.inl rfl) rfl id
      (fun j q next before => ledger.front (t := t) (.inl (by rw [ready, next])) before) running
  rw [board]
  rwa [show (s.board.setPost t (.waiting k .ready)).setPass k { p with state := .running } =
    (s.board.setPass k { p with state := .running }).setPost t (.waiting k .ready) from rfl,
    Board.setPost_setPost] at moved

end InHand

section Resumption

variable {s s' : Session ι} {t k : Nat} {ds : List Deed}

/-- A turn of the task in hand leaves its pass under way or ends it. -/
theorem InHand.advances {cancelled : Bool} {due : Except Error String} {size : Nat}
    (hand : InHand s t k ds) (advances : Advances s t k cancelled due size s') :
    Booked s' ds ∧ ∃ post, s'.board.post? t = some post ∧ ∀ j wake, post ≠ .waiting j wake := by
  have logged : ∀ log, InHand { s with log } t k ds := fun _ =>
    ⟨hand.numbered, hand.calm, hand.present, hand.free, hand.ledger⟩
  cases advances with
  | @suspended e count log live same fewer =>
    obtain ⟨booked, there⟩ := (logged log).suspend e count
    exact ⟨booked, _, there, nofun⟩
  | ended ends =>
    obtain ⟨log, settles⟩ := ends
    rename_i state outcome
    obtain ⟨⟨numbered, calm, ledger⟩, there⟩ := (logged log).settle state outcome
    exact ⟨⟨numbered, calm, ledger⟩, _, there, nofun⟩

/-- A new task opens its pass and begins it, or waits for the one before if that is not done. -/
theorem Booked.openPass (booked : Booked s ds) (free : s.dues t = 0) {given : Option Json}
    (fresh : s.stage? t = some (.fresh given)) :
    Booked (s.openPass t given) (ds ++ [.opens t (s.passes.length + 1)]) ∧
      ((∃ j wake, (s.openPass t given).board.post? t = some (.waiting j wake)) ↔
        ∃ p, s.pass? s.passes.length = some p ∧ p.done = false) := by
  have posted : s.board.post? t = some .fresh := congrArg (Option.map Stage.post) fresh
  have current := booked.numbered.current?_eq
  by_cases waits : ∃ p, s.pass? s.passes.length = some p ∧ p.done = false
  · obtain ⟨previous, last, undone⟩ := waits
    obtain ⟨log, same⟩ := openPass_of_open (current.trans last) undone t given
    have board := board_queueUp booked.numbered posted last given
    rw [same]
    refine ⟨⟨booked.numbered.addPass.modifyPass _ (by simp), ?_, ?_⟩, ?_⟩
    · exact Calm.modifyTask (s := s.addPass.modifyPass _ _) booked.calm fun _ quiet => quiet
    · have entered : Ledger (s.board.addPass.setPost t (.waiting (s.passes.length + 1) .asleep))
          (ds ++ [.opens t (s.passes.length + 1)]) :=
        booked.ledger.enter posted (fun _ => free) nofun
      have last' : (s.board.addPass.setPost t (.waiting (s.passes.length + 1) .asleep)).pass?
          s.passes.length = some previous := (if_neg (by simp [Session.board])).trans last
      show Ledger (s.queueUp t previous given).board _
      rw [board]
      refine entered.setWaiters last' rfl rfl fun u member => ?_
      rcases List.mem_append.mp member with member | member
      · exact List.mem_append_left _ (booked.ledger.waiter last member)
      · rw [List.mem_singleton.mp member]
        exact List.mem_append_right _ List.mem_cons_self
    · have there : (s.queueUp t previous given).board.post? t =
          some (.waiting (s.passes.length + 1) .asleep) := by
        rw [board]
        exact if_pos rfl
      exact ⟨fun _ => ⟨previous, last, undone⟩, fun _ => ⟨_, _, there⟩⟩
  · have all : ∀ previous, s.current? = some previous → previous.done = true := by
      intro previous last
      by_contra undone
      exact waits ⟨previous, current ▸ last, by simpa using undone⟩
    rw [openPass_of_done all]
    have hand : InHand (s.addPass.begin (s.passes.length + 1)) t (s.passes.length + 1)
        (ds ++ [.opens t (s.passes.length + 1)]) := by
      refine inHand_begin booked.numbered.addPass booked.calm ⟨_, posted, rfl⟩ free ?_
      rw [board_addPass booked.numbered]
      exact booked.ledger.enter posted nofun fun _ q last => all q (current ▸ last)
    obtain ⟨size, advances⟩ := startRun_advances t
      ((booked.numbered.pass?_addPass _).trans (if_pos rfl)) given
    obtain ⟨done, post, there, other⟩ := hand.advances advances
    refine ⟨done, ⟨?_, fun waits' => absurd waits' waits⟩⟩
    rintro ⟨j, wake, there'⟩
    cases there.symm.trans there'
    exact absurd rfl (other j wake)

/-- Continuing a task that stood in the queue keeps the books. -/
theorem Booked.resumeTask (booked : Booked s ds) (free : s.dues t = 0)
    (awake : ∀ post, s.board.post? t = some post → post.isAsleep = false) :
    Booked (s.resumeTask t) (ds ++ (s.deedOf? t).toList) := by
  unfold Session.resumeTask deedOf?
  cases present : s.task? t with
  | none => simpa using booked
  | some task =>
  have there : s.stage? t = some task.stage := stage?_eq_some.mpr ⟨task, present, rfl⟩
  have posted : s.board.post? t = some task.stage.post := congrArg (Option.map Stage.post) there
  have ends : ∀ {ds' outcome}, Ledger (s.board.setPost t .ended) ds' →
      Booked (s.endTask t outcome) ds' := fun {ds' outcome} ledger =>
    ⟨booked.numbered.endTask t outcome, booked.calm.endTask t outcome,
      by rwa [board_endTask present (booked.calm t task present)]⟩
  dsimp only
  cases stage : task.stage with
  | ended outcome => simpa using booked
  | fresh given =>
    rw [stage] at there posted
    cases cancelled : task.cancelRequested with
    | true =>
      simp only [if_true, Option.toList_none, List.append_nil]
      exact ends (booked.ledger.repost rfl (booked.ledger.away_of_fresh posted))
    | false => exact (booked.openPass free there).1
  | waiting k given wake =>
    rw [stage] at there posted
    have posted : s.board.post? t = some (.waiting k wake) := posted
    by_cases cancelled : (task.cancelRequested || wake == .cancelled) = true
    · simp only [cancelled, if_true]
      exact ends (booked.ledger.abandon posted)
    · simp only [cancelled, if_false, Bool.false_eq_true, Option.toList_none, List.append_nil]
      obtain rfl : wake = .ready := by
        cases wake with
        | asleep => cases awake _ posted
        | cancelled => simp at cancelled
        | ready => rfl
      have hand : InHand (s.begin k) t k ds :=
        inHand_begin booked.numbered booked.calm ⟨_, posted, rfl⟩ free
          (by rw [Board.setPost_self posted]; exact booked.ledger)
      obtain ⟨p, found⟩ := (booked.ledger.numbered k).mpr
        (booked.ledger.opened (booked.ledger.holds posted rfl))
      obtain ⟨size, advances⟩ := startRun_advances t found given
      exact (hand.advances advances).1
  | running k e count =>
    rw [stage] at there posted
    have posted : s.board.post? t = some (.running k) := posted
    have hand : InHand s t k ds := ⟨booked.numbered, booked.calm, ⟨_, posted, rfl⟩, free,
      by rw [Board.setPost_self posted]; exact booked.ledger⟩
    simp only [Option.toList_none, List.append_nil]
    cases task.cancelRequested with
    | true => exact (hand.settle .aborted .cancelled).1
    | false =>
      obtain ⟨p, found⟩ := hand.exists_pass
      have named : p.id = k := by simpa using List.find?_some found
      have advances := s.advance_advances t p e count
      rw [named] at advances
      simp only [Bool.false_eq_true, if_false, found]
      exact (hand.advances advances).1

end Resumption

section Run

variable {s s' : Session ι} {t : Nat} {ds : List Deed}

omit [BEq ι] [NodeId ι] in
/-- Only passes, tasks and the tasks in the queue matter. -/
theorem Booked.congr (booked : Booked s ds) (passes : s'.passes = s.passes)
    (tasks : s'.tasks = s.tasks) (dues : ∀ t, s'.dues t = s.dues t) : Booked s' ds := by
  have pass : s'.pass? = s.pass? := by
    funext k
    rw [pass?, passes, pass?]
  have task : s'.task? = s.task? := by
    funext t
    rw [task?, tasks, task?]
  have board : s'.board = s.board := by
    simp only [Session.board, passes, pass, stage?, task, funext dues]
  refine ⟨booked.numbered.congr passes, ?_, by rw [board]; exact booked.ledger⟩
  rw [Calm, task]
  exact booked.calm

omit [BEq ι] [NodeId ι] in
theorem Booked.aside (booked : Booked s ds) (same : Aside s s') : Booked s' ds :=
  booked.congr same.passes same.tasks fun t => by rw [dues_eq_count, dues_eq_count, same.due]

omit [BEq ι] [NodeId ι] in
theorem board_spawn (s : Session ι) (given : Option Json) (observers : Nat → List Job) :
    (s.spawn given observers).1.board = { s.board.setPost s.tasks.length .fresh with
      dues := fun u => s.dues u + if u = s.tasks.length then 1 else 0 } := by
  simp only [board, Board.setPost, Board.mk.injEq]
  refine ⟨rfl, rfl, funext fun u => ?_, funext fun u => ?_⟩
  · rw [stage?_spawn]
    split <;> rfl
  · rw [Session.spawn, dues_push, count_resume]
    rfl

omit [BEq ι] [NodeId ι] in
/-- A new task has opened no pass yet. -/
theorem Booked.spawn {observers : Nat → List Job} (booked : Booked s ds) (given : Option Json)
    (calm : ∀ t u, .resume u ∉ observers t) : Booked (s.spawn given observers).1 ds := by
  have missing : s.board.post? s.tasks.length = none := by
    simp [board, stage?, task?]
  have away : ∀ k, .opens s.tasks.length k ∉ ds := by
    intro k opens
    obtain ⟨p, post, -, there, -⟩ := booked.ledger.stands opens
    cases missing.symm.trans there
  refine ⟨booked.numbered, ?_, ?_⟩
  · intro t task found
    rw [task?_spawn] at found
    split at found
    · cases found
      exact calm _
    · exact booked.calm t task found
  · rw [board_spawn]
    have posted : Ledger (s.board.setPost s.tasks.length .fresh) ds := booked.ledger.repost rfl away
    exact posted.enqueue (if_pos rfl) rfl (booked.ledger.absent missing)

omit [BEq ι] [NodeId ι] in
theorem Booked.taken {i : Nat} {job : Job} (booked : Booked s ds)
    (queued : s.queue[i]? = some job) :
    Booked (s.taken i) ds := by
  refine ⟨booked.numbered, booked.calm, booked.ledger.lessen fun t => ?_⟩
  have := dues_taken queued t
  show (s.taken i).dues t ≤ s.dues t
  omega

omit [BEq ι] [NodeId ι] in
/-- A change of tasks that leaves their stages alone keeps the books. -/
theorem Booked.modifyTask (booked : Booked s ds) {f : Task ι → Task ι}
    (same : ∀ task, (f task).stage = task.stage) (keeps : ∀ task,
      (∀ u, .resume u ∉ task.observers) → ∀ u, .resume u ∉ (f task).observers) :
    Booked (s.modifyTask t f) ds :=
  ⟨booked.numbered, booked.calm.modifyTask keeps,
    by rw [board_modifyTask_same same]; exact booked.ledger⟩

omit [BEq ι] [NodeId ι] in
theorem Booked.push {jobs : List Job} (booked : Booked s ds) (calm : ∀ u, .resume u ∉ jobs) :
    Booked (s.push jobs) ds :=
  ⟨booked.numbered, booked.calm, by rw [board_push_calm calm]; exact booked.ledger⟩

omit [BEq ι] [NodeId ι] in
/-- Cancelling a task wakes it if it sleeps, and else marks it. -/
theorem Booked.cancel (booked : Booked s ds) (t : Nat) : Booked (s.cancel t).1 ds := by
  unfold Session.cancel
  split
  · exact booked
  · exact booked
  · rename_i pass selector there
    obtain ⟨task, present, -⟩ := stage?_eq_some.mp there
    have asleep : s.board.post? t = some (.waiting pass .asleep) :=
      congrArg (Option.map Stage.post) there
    refine ⟨booked.numbered, booked.calm.modifyTask fun _ quiet => quiet, ?_⟩
    rw [board_push, board_modifyTask present]
    simp only [count_resume]
    exact (booked.ledger.stop asleep).enqueue (if_pos rfl) rfl (booked.ledger.asleep asleep)
  · exact booked.modifyTask (fun _ => rfl) fun _ quiet => quiet

omit [BEq ι] [NodeId ι] in
theorem Booked.gatherAll (booked : Booked s ds) (owner : Signal) :
    Booked (s.gatherAll owner).1 ds := by
  unfold Session.gatherAll
  dsimp only
  refine List.foldlRecOn (motive := fun s => Booked s ds) _ _ (booked.congr rfl rfl fun _ => rfl)
    fun s booked t _ => ?_
  split
  · exact booked.push (by simp)
  · exact booked.modifyTask (fun _ => rfl) (by simp)

omit [BEq ι] [NodeId ι] in
theorem Booked.idle {deed : Option Deed} (booked : Booked s ds) (none : deed = none) :
    Booked s (ds ++ deed.toList) := by
  rw [none, Option.toList_none, List.append_nil]
  exact booked

/-- Every turn keeps the books. -/
theorem Booked.take (booked : Booked s ds) (turn : Turn ι) :
    Booked (s.take turn) (ds ++ (s.deed? (.turn turn)).toList) := by
  cases turn with
  | process selector => exact (booked.spawn selector (by simp)).idle rfl
  | trigger =>
    rcases trigger_takes (.trigger : Turn ι) (.refl s) rfl with aside | ⟨observers, calm, spawned⟩
    · exact (booked.aside aside).idle rfl
    · exact ((booked.spawn _ calm).aside spawned).idle rfl
  | request r =>
    obtain ⟨α, edited, regenerate, same⟩ := s.request_eq_edit r
    have takes : Takes s 0 (.request r) (s.edit edited regenerate).1 :=
      edit_takes s edited regenerate rfl nofun
    rw [Session.take, same]
    cases takes with
    | aside same => exact (booked.aside same).idle rfl
    | spawned observers calm same => exact ((booked.spawn _ calm).aside same).idle rfl
  | amend graph =>
    refine Booked.idle ?_ rfl
    exact booked.congr rfl rfl fun _ => rfl
  | select selector =>
    refine Booked.idle ?_ rfl
    exact booked.congr rfl rfl fun _ => rfl
  | job i =>
    simp only [Session.take, deed?]
    cases queued : s.queue[i]? with
    | none => exact booked.idle rfl
    | some job =>
      cases job with
      | resume t =>
        -- The job was the only one of its task, so the task did not sleep.
        have single : s.dues t ≤ 1 := booked.ledger.single t
        have dues := dues_taken queued t
        rw [if_pos rfl] at dues
        refine (booked.taken queued).resumeTask (by omega) fun post there => ?_
        cases asleep : post.isAsleep with
        | false => rfl
        | true =>
          obtain ⟨k, rfl⟩ := Post.isAsleep_iff.mp asleep
          have none : s.dues t = 0 := booked.ledger.asleep there
          omega
      | _ => exact (booked.aside (runJob_aside queued rfl).1).idle rfl

/-- Every move keeps the books. -/
theorem Booked.act (booked : Booked s ds) (move : Move ι) :
    Booked (s.act move) (ds ++ (s.deed? move).toList) := by
  cases move with
  | turn turn => exact booked.take turn
  | cancel t => exact (booked.cancel t).idle rfl
  | gather owner => exact (booked.gatherAll owner).idle rfl
  | watch t =>
    refine Booked.idle ?_ rfl
    exact booked.modifyTask (fun _ => rfl) (by simp)

/-- So do all moves together. -/
theorem booked_actAll (booked : Booked s []) (moves : List (Move ι)) :
    Booked (s.actAll moves) (s.deeds moves) := by
  induction moves using List.reverseRecOn with
  | nil => exact booked
  | append_singleton moves move ih =>
    rw [actAll_snoc, deeds_snoc]
    exact ih.act move

omit [BEq ι] [NodeId ι] in
theorem IsNew.booked (new : s.IsNew) : Booked s [] := by
  have pass := new.pass?
  have stage := new.stage?
  have dues : ∀ t, s.dues t = 0 := fun t => by rw [Session.dues, new.queue, List.count_nil]
  have none : s.passes.length = 0 := by rw [new.passes, List.length_nil]
  refine ⟨by rw [Numbered, new.passes]; rfl, ?_, ?_⟩
  · intro t task found
    rw [task?, new.tasks] at found
    cases found
  · constructor <;> simp [board, pass, stage, dues, none]
    omega

end Run

section Acknowledgement

variable {s : Session ι}

/-- No task is at a pass. -/
def AtRest (s : Session ι) : Prop := ∀ t stage, s.stage? t = some stage → stage.post.pass? = none

/-- Whether a job of the queue starts a task that nobody cancelled. -/
def StartsTask (s : Session ι) (i t : Nat) : Prop :=
  s.queue[i]? = some (.resume t) ∧ ∃ task given,
    s.task? t = some task ∧ task.stage = .fresh given ∧ task.cancelRequested = false

omit [BEq ι] [NodeId ι] in
theorem AtRest.post? (rest : s.AtRest) (t : Nat) (post : Post)
    (there : s.board.post? t = some post) :
    post.pass? = none := by
  obtain ⟨stage, found, rfl⟩ := Option.map_eq_some_iff.mp there
  exact rest t stage found

omit [BEq ι] [NodeId ι] in
theorem waiting_iff {t : Nat} : (∃ j given wake, s.stage? t = some (.waiting j given wake)) ↔
    ∃ j wake, s.board.post? t = some (.waiting j wake) := by
  constructor
  · rintro ⟨j, given, wake, there⟩
    exact ⟨j, wake, congrArg (Option.map Stage.post) there⟩
  · rintro ⟨j, wake, there⟩
    obtain ⟨stage, found, same⟩ := Option.map_eq_some_iff.mp there
    cases stage with
    | waiting k given wake => exact ⟨k, given, wake, found⟩
    | _ => cases same

/-- A task that starts has to wait exactly if the last pass is open. -/
theorem Booked.waits_iff {ds : List Deed} (booked : Booked s ds) {i t : Nat}
    (starts : s.StartsTask i t) :
    (∃ j given wake, (s.act (.turn (.job i))).stage? t = some (.waiting j given wake)) ↔
      ∃ p, s.pass? s.passes.length = some p ∧ p.done = false := by
  obtain ⟨queued, task, given, present, fresh, wanted⟩ := starts
  have same : s.act (.turn (.job i)) = (s.taken i).openPass t given := by
    simp only [Session.act, Session.take, queued]
    show (s.taken i).resumeTask t = _
    have present : (s.taken i).task? t = some task := present
    simp only [Session.resumeTask, present, fresh, wanted, Bool.false_eq_true, if_false]
  have free : (s.taken i).dues t = 0 := by
    have single : s.dues t ≤ 1 := booked.ledger.single t
    have dues := dues_taken queued t
    rw [if_pos rfl] at dues
    omega
  have stage : (s.taken i).stage? t = some (.fresh given) :=
    stage?_eq_some.mpr ⟨task, present, fresh⟩
  rw [same, waiting_iff]
  exact ((booked.taken queued).openPass free stage).2

/-- A task that ended leaves its pass done, unless it was cancelled while it waited for the pass
before. Each pass was opened by one task. A pass that was given up is never done, and nor is any
later one, none of which even starts. So when no task is at a pass, the next one waits exactly if
the last pass was given up. -/
theorem done_iff_not_abandoned (new : s.IsNew) (moves : List (Move ι)) :
    (∀ t k, .opens t k ∈ s.deeds moves →
      ∀ outcome, (s.actAll moves).stage? t = some (.ended outcome) →
        ∃ p, (s.actAll moves).pass? k = some p ∧
          (p.done = true ↔ .abandons t k ∉ s.deeds moves)) ∧
    (∀ k p, (s.actAll moves).pass? k = some p → ∃! t, .opens t k ∈ s.deeds moves) ∧
    (∀ t k, .abandons t k ∈ s.deeds moves → ∀ j p, k ≤ j → (s.actAll moves).pass? j = some p →
      p.done = false ∧ p.state = .idle) ∧
    ((s.actAll moves).AtRest → ∀ i t, (s.actAll moves).StartsTask i t →
      ((∃ j given wake, ((s.actAll moves).act (.turn (.job i))).stage? t =
        some (.waiting j given wake)) ↔
          ∃ u, .abandons u (s.actAll moves).passes.length ∈ s.deeds moves)) := by
  have booked := booked_actAll new.booked moves
  refine ⟨?_, ?_, ?_, ?_⟩
  · intro t k opens outcome ended
    exact booked.ledger.done_iff_of_ended opens (congrArg (Option.map Stage.post) ended)
  · intro k p found
    obtain ⟨t, -, opens, -⟩ := booked.ledger.passes found
    exact ⟨t, opens, fun u opens' => booked.ledger.sole opens' opens⟩
  · intro t k left j p later found
    exact booked.ledger.idle_of_abandons left later found
  · intro rest i t starts
    exact (booked.waits_iff starts).trans (booked.ledger.undone_last_iff rest.post?)

/-- The second of two passes is given up while it waits. Both tasks end, and a third one comes. -/
def givingUp : List (Move Int) :=
  overtaking.map .turn ++
    [.cancel 1, .turn (.job 0), .turn (.job 0), .turn (.process none)]

/-- No task is at a pass then, and the third one waits all the same. -/
theorem done_iff_not_abandoned_givingUp :
    blank.IsNew ∧ (blank.actAll givingUp).AtRest ∧ (blank.actAll givingUp).StartsTask 0 2 ∧
      (∃ p, (blank.actAll givingUp).pass? 1 = some p ∧ p.done = true) ∧
      (∃ p, (blank.actAll givingUp).pass? 2 = some p ∧ p.done = false ∧ p.state = .idle) ∧
      ∃ j given wake, ((blank.actAll givingUp).act (.turn (.job 0))).stage? 2 =
        some (.waiting j given wake) := by
  have new : blank.IsNew := ⟨rfl, rfl, rfl, rfl, rfl, rfl⟩
  have deeds : blank.deeds givingUp = [.opens 0 1, .opens 1 2, .abandons 1 2] := by decide +kernel
  have posts : ((blank.actAll givingUp).tasks.map fun task => task.stage.post) =
      [.ended, .ended, .fresh] := by decide +kernel
  have posted : ∀ t, ((blank.actAll givingUp).stage? t).map Stage.post =
      [Post.ended, .ended, .fresh][t]? := by
    intro t
    rw [← posts, List.getElem?_map, stage?, Option.map_map]
    rfl
  have rest : (blank.actAll givingUp).AtRest := by
    intro t stage there
    have member := List.mem_of_getElem? ((posted t).symm.trans (congrArg _ there))
    simp only [List.mem_cons, List.not_mem_nil, or_false] at member
    rcases member with ended | ended | fresh <;> simp [*, Post.pass?]
  have starts : (blank.actAll givingUp).StartsTask 0 2 := by
    have third : (((blank.actAll givingUp).task? 2).map fun task =>
        (task.stage.post, task.cancelRequested)) = some (.fresh, false) := by decide +kernel
    obtain ⟨task, found, same⟩ := Option.map_eq_some_iff.mp third
    obtain ⟨given, fresh⟩ := Stage.post_eq_fresh (congrArg Prod.fst same)
    exact ⟨by decide +kernel, task, given, found, fresh, congrArg Prod.snd same⟩
  have last : (blank.actAll givingUp).passes.length = 2 := by decide +kernel
  have present : ((blank.actAll givingUp).pass? 2).isSome = true := by decide +kernel
  obtain ⟨q, second⟩ := Option.isSome_iff_exists.mp present
  obtain ⟨stage, first, ended⟩ := Option.map_eq_some_iff.mp (posted 0)
  obtain ⟨outcome, rfl⟩ := Stage.post_eq_ended ended
  obtain ⟨ends, -, idle, waits⟩ := done_iff_not_abandoned new givingUp
  refine ⟨new, rest, starts, ?_,
    ⟨q, second, idle 1 2 (by simp [deeds]) 2 q (Nat.le_refl _) second⟩, ?_⟩
  · obtain ⟨p, found, done⟩ := ends 0 1 (by simp [deeds]) outcome first
    exact ⟨p, found, done.mpr (by simp [deeds])⟩
  · exact (waits rest 0 2 starts).mpr ⟨1, by simp [deeds, last]⟩

end Acknowledgement

end Session

end ShaderFlow
