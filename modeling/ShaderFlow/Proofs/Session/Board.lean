import ShaderFlow.Proofs.Session.Turn

set_option autoImplicit false

/-
Of a session with cancellations in it, this is what decides who waits for whom: how far each task
is, which passes are done, and who stands in the queue. What tasks do to the passes is written into
a ledger, and the ledger and the board agree whatever happens next.
-/

namespace ShaderFlow

/-- How far a task is, without what it works on. -/
inductive Post where
  | fresh
  | waiting (pass : Nat) (wake : Wake)
  | running (pass : Nat)
  | ended
  deriving DecidableEq

namespace Post

/-- The pass that a task is at. -/
def pass? : Post → Option Nat
  | .waiting k _ | .running k => some k
  | _ => none

def isAsleep : Post → Bool
  | .waiting _ .asleep => true
  | _ => false

/-- A task that sleeps is woken. -/
def rouse : Post → Post
  | .waiting k .asleep => .waiting k .ready
  | post => post

theorem isAsleep_iff {post : Post} : post.isAsleep = true ↔ ∃ k, post = .waiting k .asleep := by
  unfold isAsleep
  split <;> simp_all

/-- What is woken slept, or it was no different before. -/
theorem rouse_cases (post : Post) :
    (∃ k, post = .waiting k .asleep ∧ post.rouse = .waiting k .ready) ∨
      post.isAsleep = false ∧ post.rouse = post := by
  cases asleep : post.isAsleep with
  | true =>
    obtain ⟨k, rfl⟩ := isAsleep_iff.mp asleep
    exact .inl ⟨k, rfl, rfl⟩
  | false =>
    refine .inr ⟨rfl, ?_⟩
    unfold rouse
    split
    · cases asleep
    · rfl

end Post

def Stage.post {ι : Type} : Stage ι → Post
  | .fresh _ => .fresh
  | .waiting k _ wake => .waiting k wake
  | .running k _ _ => .running k
  | .ended _ => .ended

theorem Stage.post_eq_fresh {ι : Type} {stage : Stage ι} (fresh : stage.post = .fresh) :
    ∃ given, stage = .fresh given := by
  cases stage with
  | fresh given => exact ⟨given, rfl⟩
  | _ => cases fresh

theorem Stage.post_eq_ended {ι : Type} {stage : Stage ι} (ended : stage.post = .ended) :
    ∃ outcome, stage = .ended outcome := by
  cases stage with
  | ended outcome => exact ⟨outcome, rfl⟩
  | _ => cases ended

/-- What a task does to a pass: it opens one, or it ends while it waits for the one before. -/
inductive Deed where
  | opens (task pass : Nat)
  | abandons (task pass : Nat)
  deriving DecidableEq

structure Board where
  count : Nat
  pass? : Nat → Option Pass
  post? : Nat → Option Post
  dues : Nat → Nat

namespace Board

def setPost (b : Board) (t : Nat) (post : Post) : Board :=
  { b with post? := fun u => if u = t then some post else b.post? u }

def setPass (b : Board) (k : Nat) (p : Pass) : Board :=
  { b with pass? := fun j => if j = k then some p else b.pass? j }

/-- One more pass, which nobody has touched yet. -/
def addPass (b : Board) : Board :=
  { b.setPass (b.count + 1) { id := b.count + 1 } with count := b.count + 1 }

/-- Some tasks are woken, if they sleep. -/
def rouse (b : Board) (ts : List Nat) : Board :=
  { b with
    post? := fun u => if u ∈ ts then (b.post? u).map Post.rouse else b.post? u
    dues := fun u => b.dues u + if u ∈ ts ∧ (b.post? u).any Post.isAsleep then 1 else 0 }

section Views

variable (b : Board) (t u k j : Nat) (post : Post) (p : Pass) (ts : List Nat)

@[grind =] theorem post?_setPost :
    (b.setPost t post).post? u = if u = t then some post else b.post? u := rfl

@[grind =] theorem pass?_setPost : (b.setPost t post).pass? j = b.pass? j := rfl

@[grind =] theorem dues_setPost : (b.setPost t post).dues u = b.dues u := rfl

@[grind =] theorem dues_setPass : (b.setPass k p).dues u = b.dues u := rfl

@[grind =] theorem count_setPost : (b.setPost t post).count = b.count := rfl

@[grind =] theorem count_setPass : (b.setPass k p).count = b.count := rfl

@[grind =] theorem count_addPass : b.addPass.count = b.count + 1 := rfl

@[grind =] theorem pass?_setPass :
    (b.setPass k p).pass? j = if j = k then some p else b.pass? j := rfl

@[grind =] theorem post?_setPass : (b.setPass k p).post? u = b.post? u := rfl

@[grind =] theorem pass?_addPass : b.addPass.pass? j =
    if j = b.count + 1 then some { id := b.count + 1 } else b.pass? j := rfl

@[grind =] theorem post?_addPass : b.addPass.post? u = b.post? u := rfl

@[grind =] theorem dues_addPass : b.addPass.dues u = b.dues u := rfl

@[grind =] theorem post?_rouse : (b.rouse ts).post? u =
    if u ∈ ts then (b.post? u).map Post.rouse else b.post? u := rfl

@[grind =] theorem dues_rouse : (b.rouse ts).dues u =
    b.dues u + if u ∈ ts ∧ (b.post? u).any Post.isAsleep then 1 else 0 := rfl

@[grind =] theorem pass?_rouse : (b.rouse ts).pass? j = b.pass? j := rfl

end Views

/-- After others were woken, a task was woken or is where it was. -/
theorem rouse_cases {b : Board} {ts : List Nat} {u : Nat} {post : Post}
    (there : (b.rouse ts).post? u = some post) :
    (∃ k, u ∈ ts ∧ b.post? u = some (.waiting k .asleep) ∧ post = .waiting k .ready ∧
        (b.rouse ts).dues u = b.dues u + 1) ∨
      b.post? u = some post ∧ (b.rouse ts).dues u = b.dues u := by
  rw [post?_rouse] at there
  rw [dues_rouse]
  by_cases inside : u ∈ ts
  · rw [if_pos inside] at there
    obtain ⟨before, found, rfl⟩ := Option.map_eq_some_iff.mp there
    rcases before.rouse_cases with ⟨k, rfl, woken⟩ | ⟨awake, same⟩
    · exact .inl ⟨k, inside, found, woken, by simp [inside, found, Post.isAsleep]⟩
    · exact .inr ⟨by rw [same, found], by simp [found, awake]⟩
  · rw [if_neg inside] at there
    exact .inr ⟨there, by simp [inside]⟩

theorem rouse_absent {b : Board} {ts : List Nat} {u : Nat} (missing : (b.rouse ts).post? u = none) :
    b.post? u = none ∧ (b.rouse ts).dues u = b.dues u := by
  have none : b.post? u = none := by
    rw [post?_rouse] at missing
    split at missing
    · exact Option.map_eq_none_iff.mp missing
    · exact missing
  exact ⟨none, by simp [dues_rouse, none]⟩

/-- Waking those who are awake does nothing. -/
theorem rouse_of_awake {b : Board} {ts : List Nat}
    (awake : ∀ u ∈ ts, ∀ post, b.post? u = some post → post.isAsleep = false) : b.rouse ts = b := by
  obtain ⟨count, pass?, post?, dues⟩ := b
  simp only [rouse, mk.injEq, true_and]
  constructor
  · funext u
    split
    · cases there : post? u with
      | none => rfl
      | some post =>
        rcases post.rouse_cases with ⟨k, rfl, -⟩ | ⟨-, same⟩
        · cases awake u ‹_› _ there
        · rw [Option.map_some, same]
    · rfl
  · funext u
    rw [if_neg, Nat.add_zero]
    rintro ⟨inside, asleep⟩
    obtain ⟨post, there, asleep⟩ := (Option.any_eq_true ..).mp asleep
    rw [awake u inside post there] at asleep
    cases asleep

theorem rouse_single {b : Board} {t k : Nat} (there : b.post? t = some (.waiting k .asleep)) :
    b.rouse [t] = { b.setPost t (.waiting k .ready) with
      dues := fun u => b.dues u + if u = t then 1 else 0 } := by
  simp only [rouse, setPost, mk.injEq, true_and]
  constructor
  · funext u
    by_cases same : u = t
    · simp [same, there, Post.rouse]
    · simp [same]
  · funext u
    by_cases same : u = t
    · simp [same, there, Post.isAsleep]
    · simp [same]

theorem rouse_cons (b : Board) (t : Nat) (ts : List Nat) :
    (b.rouse [t]).rouse ts = b.rouse (t :: ts) := by
  simp only [rouse, mk.injEq, true_and, List.mem_cons, List.not_mem_nil, or_false]
  constructor
  · funext u
    by_cases same : u = t
    · subst same
      cases there : b.post? u with
      | none => simp
      | some post =>
        rcases post.rouse_cases with ⟨k, rfl, woken⟩ | ⟨-, kept⟩ <;> simp_all [Post.rouse]
    · simp [same]
  · funext u
    by_cases same : u = t
    · subst same
      cases there : b.post? u with
      | none => simp
      | some post =>
        rcases post.rouse_cases with ⟨k, rfl, woken⟩ | ⟨awake, kept⟩ <;> simp_all [Post.isAsleep]
    · simp [same]

/-- Who is awake can end before the others are woken. -/
theorem setPost_rouse {b : Board} {ts : List Nat} {t : Nat} {post : Post}
    (there : b.post? t = some post) (awake : post.isAsleep = false) :
    (b.rouse ts).setPost t .ended = (b.setPost t .ended).rouse ts := by
  simp only [rouse, setPost, mk.injEq, true_and]
  constructor
  · funext u
    by_cases same : u = t
    · simp [same, Post.rouse]
    · simp [same]
  · funext u
    by_cases same : u = t
    · have ended : Post.ended.isAsleep = false := rfl
      simp [same, there, awake, ended]
    · simp [same]

theorem setPass_setPass (b : Board) (k : Nat) (p p' : Pass) :
    (b.setPass k p).setPass k p' = b.setPass k p' := by
  simp only [setPass, mk.injEq, true_and, and_true]
  funext j
  by_cases same : j = k <;> simp [same]

theorem setPost_setPost (b : Board) (t : Nat) (post post' : Post) :
    (b.setPost t post).setPost t post' = b.setPost t post' := by
  simp only [setPost, mk.injEq, true_and, and_true]
  funext u
  by_cases same : u = t <;> simp [same]

theorem setPost_self {b : Board} {t : Nat} {post : Post} (there : b.post? t = some post) :
    b.setPost t post = b := by
  obtain ⟨count, pass?, post?, dues⟩ := b
  simp only [setPost, mk.injEq, true_and, and_true]
  funext u
  split
  · rename_i same
    exact same ▸ there.symm
  · rfl

theorem exists_setPass {b : Board} {k : Nat} {p : Pass} (found : b.pass? k = some p) (p' : Pass)
    (j : Nat) : (∃ q, (b.setPass k p').pass? j = some q) ↔ ∃ q, b.pass? j = some q := by
  rw [pass?_setPass]
  split
  · rename_i same
    exact ⟨fun _ => ⟨p, same ▸ found⟩, fun _ => ⟨p', rfl⟩⟩
  · rfl

end Board

/-- How a pass stands with the task that opened it. -/
inductive Stands (deeds : List Deed) (t k : Nat) (p : Pass) : Post → Prop
  | waiting {wake : Wake} (undone : p.done = false) (idle : p.state = .idle)
      (stays : .abandons t k ∉ deeds) : Stands deeds t k p (.waiting k wake)
  | running (undone : p.done = false) (stays : .abandons t k ∉ deeds) :
      Stands deeds t k p (.running k)
  | settled (done : p.done = true) (stays : .abandons t k ∉ deeds) : Stands deeds t k p .ended
  | abandoned (undone : p.done = false) (idle : p.state = .idle) (left : .abandons t k ∈ deeds) :
      Stands deeds t k p .ended

theorem Stands.rouse {deeds : List Deed} {t k : Nat} {p : Pass} {post : Post}
    (stands : Stands deeds t k p post) : Stands deeds t k p post.rouse := by
  rcases post.rouse_cases with ⟨j, rfl, -⟩ | ⟨-, same⟩
  · cases stands with
    | waiting undone idle stays => exact .waiting undone idle stays
  · rwa [same]

/-- The deeds of others do not matter to how a pass stands. -/
theorem Stands.more {deeds : List Deed} {t k : Nat} {p : Pass} {post : Post} {deed : Deed}
    (stands : Stands deeds t k p post) (other : deed ≠ .abandons t k) :
    Stands (deeds ++ [deed]) t k p post := by
  have stays : .abandons t k ∉ deeds → .abandons t k ∉ deeds ++ [deed] := by
    simp [Ne.symm other]
  cases stands with
  | waiting undone idle none => exact .waiting undone idle (stays none)
  | running undone none => exact .running undone (stays none)
  | settled done none => exact .settled done (stays none)
  | abandoned undone idle left => exact .abandoned undone idle (by simp [left])

/-- The board agrees with the deeds of all tasks so far. -/
structure Ledger (b : Board) (deeds : List Deed) : Prop where
  numbered : ∀ k, (∃ p, b.pass? k = some p) ↔ 1 ≤ k ∧ k ≤ b.count
  single : ∀ t, b.dues t ≤ 1
  asleep : ∀ {t k}, b.post? t = some (.waiting k .asleep) → b.dues t = 0
  absent : ∀ {t}, b.post? t = none → b.dues t = 0
  passes : ∀ {k p}, b.pass? k = some p → ∃ t post, .opens t k ∈ deeds ∧ b.post? t = some post ∧
    Stands deeds t k p post
  opened : ∀ {t k}, .opens t k ∈ deeds → 1 ≤ k ∧ k ≤ b.count
  sole : ∀ {t u k}, .opens t k ∈ deeds → .opens u k ∈ deeds → t = u
  holds : ∀ {t post k}, b.post? t = some post → post.pass? = some k → .opens t k ∈ deeds
  leaves : ∀ {t k}, .abandons t k ∈ deeds → .opens t k ∈ deeds
  /-- A pass gets under way when the one before it is done. -/
  behind : ∀ {j p q}, b.pass? (j + 1) = some p → p.done = true ∨ p.state ≠ .idle →
    b.pass? j = some q → q.done = true
  front : ∀ {t j q},
    b.post? t = some (.waiting (j + 1) .ready) ∨ b.post? t = some (.running (j + 1)) →
    b.pass? j = some q → q.done = true
  waiter : ∀ {j p u}, b.pass? j = some p → u ∈ p.waiters → .opens u (j + 1) ∈ deeds

namespace Ledger

variable {b : Board} {deeds : List Deed} {t k : Nat}

theorem stands (ledger : Ledger b deeds) (opens : .opens t k ∈ deeds) :
    ∃ p post, b.pass? k = some p ∧ b.post? t = some post ∧ Stands deeds t k p post := by
  obtain ⟨p, found⟩ := (ledger.numbered k).mpr (ledger.opened opens)
  obtain ⟨u, post, opens', there, stands⟩ := ledger.passes found
  rw [ledger.sole opens opens']
  exact ⟨p, post, found, there, stands⟩

/-- A task at a pass stands as its post says. -/
theorem stands_of_post (ledger : Ledger b deeds) {post : Post} {p : Pass}
    (there : b.post? t = some post) (at_ : post.pass? = some k) (found : b.pass? k = some p) :
    Stands deeds t k p post := by
  obtain ⟨q, post', found', there', stands⟩ := ledger.stands (ledger.holds there at_)
  cases found.symm.trans found'
  cases there.symm.trans there'
  exact stands

theorem away_of_fresh (ledger : Ledger b deeds) (fresh : b.post? t = some .fresh) (k : Nat) :
    .opens t k ∉ deeds := by
  intro opens
  obtain ⟨p, post, -, there, stands⟩ := ledger.stands opens
  cases fresh.symm.trans there
  cases stands

/-- What is in the queue matters only to tasks that sleep or are yet to come. -/
theorem requeue (ledger : Ledger b deeds) {dues : Nat → Nat} (single : ∀ t, dues t ≤ 1)
    (fewer : ∀ t post, b.post? t = some post → post.isAsleep = false ∨ dues t ≤ b.dues t)
    (absent : ∀ t, b.post? t = none → dues t = 0) : Ledger { b with dues } deeds := by
  refine { ledger with single, absent := absent _, asleep := ?_ }
  intro t k there
  rcases fewer t _ there with awake | fewer
  · cases awake
  · exact Nat.le_zero.mp (ledger.asleep there ▸ fewer)

/-- A job is taken out of the queue. -/
theorem lessen (ledger : Ledger b deeds) {dues : Nat → Nat} (fewer : ∀ t, dues t ≤ b.dues t) :
    Ledger { b with dues } deeds :=
  ledger.requeue (fun t => Nat.le_trans (fewer t) (ledger.single t)) (fun t _ _ => .inr (fewer t))
    fun t missing => Nat.le_zero.mp (ledger.absent missing ▸ fewer t)

/-- A task that does not sleep is put into the queue. -/
theorem enqueue (ledger : Ledger b deeds) {post : Post} (there : b.post? t = some post)
    (awake : post.isAsleep = false) (none : b.dues t = 0) :
    Ledger { b with dues := fun u => b.dues u + if u = t then 1 else 0 } deeds := by
  refine ledger.requeue ?_ ?_ ?_
  · intro u
    split
    · rename_i same
      exact Nat.le_of_eq (by rw [same, none])
    · exact ledger.single u
  · intro u post' there'
    by_cases same : u = t
    · subst same
      cases there.symm.trans there'
      exact .inl awake
    · exact .inr (Nat.le_of_eq (by simp [same]))
  · intro u missing
    have other : u ≠ t := by
      rintro rfl
      cases there.symm.trans missing
    simp [other, ledger.absent missing]

/-- A task with no pass goes where it has none either. -/
theorem repost (ledger : Ledger b deeds) {post : Post} (free : post.pass? = none)
    (away : ∀ k, .opens t k ∉ deeds) : Ledger (b.setPost t post) deeds := by
  refine { ledger with asleep := ?_, absent := ?_, passes := ?_, holds := ?_, front := ?_ }
  · grind [ledger.asleep, Post.pass?]
  · grind [ledger.absent]
  · grind [ledger.passes]
  · grind [ledger.holds]
  · grind [ledger.front, Post.pass?]

/-- A task that sleeps is told to end. -/
theorem stop (ledger : Ledger b deeds) (there : b.post? t = some (.waiting k .asleep)) :
    Ledger (b.setPost t (.waiting k .cancelled)) deeds := by
  refine { ledger with asleep := ?_, absent := ?_, passes := ?_, holds := ?_, front := ?_ }
  · grind [ledger.asleep]
  · grind [ledger.absent]
  · intro j p found
    obtain ⟨u, post, opens, there', stands⟩ := ledger.passes found
    by_cases same : u = t
    · subst same
      cases there.symm.trans there'
      cases stands with
      | waiting undone idle stays => exact ⟨u, _, opens, if_pos rfl, .waiting undone idle stays⟩
    · exact ⟨u, post, opens, (if_neg same).trans there', stands⟩
  · grind [ledger.holds, Post.pass?]
  · grind [ledger.front]

/-- A task ends while it waits. -/
theorem abandon (ledger : Ledger b deeds) {wake : Wake}
    (there : b.post? t = some (.waiting k wake)) :
    Ledger (b.setPost t .ended) (deeds ++ [.abandons t k]) := by
  have opens : .opens t k ∈ deeds := ledger.holds there rfl
  refine { ledger with
    asleep := ?_, absent := ?_, passes := ?_, opened := ?_, sole := ?_, holds := ?_, leaves := ?_,
    front := ?_, waiter := ?_ }
  · grind [ledger.asleep]
  · grind [ledger.absent]
  · intro j p found
    obtain ⟨u, post, opens', there', stands⟩ := ledger.passes found
    by_cases same : u = t
    · subst same
      cases there.symm.trans there'
      cases stands with
      | waiting undone idle stays =>
        exact ⟨u, .ended, by simp [opens], if_pos rfl, .abandoned undone idle (by simp)⟩
    · exact ⟨u, post, by simp [opens'], (if_neg same).trans there',
        stands.more (by simp [Ne.symm same])⟩
  · grind [→ ledger.opened]
  · grind [ledger.sole]
  · grind [ledger.holds, Post.pass?]
  · grind [ledger.leaves]
  · grind [ledger.front]
  · grind [ledger.waiter]

/-- A new task opens a pass, and waits for the one before unless that one is done. -/
theorem enter (ledger : Ledger b deeds) {wake : Wake} (fresh : b.post? t = some .fresh)
    (none : wake = .asleep → b.dues t = 0)
    (ready : wake = .ready → ∀ q, b.pass? b.count = some q → q.done = true) :
    Ledger (b.addPass.setPost t (.waiting (b.count + 1) wake))
      (deeds ++ [.opens t (b.count + 1)]) := by
  have away := ledger.away_of_fresh fresh
  have inside : ∀ {k p}, b.pass? k = some p → k ≤ b.count := fun found =>
    ((ledger.numbered _).mp ⟨_, found⟩).2
  have within : ∀ {u post k}, b.post? u = some post → post.pass? = some k → k ≤ b.count :=
    fun there at_ => (ledger.opened (ledger.holds there at_)).2
  constructor
  · intro k
    by_cases new : k = b.count + 1
    · exact ⟨fun _ => ⟨by omega, Nat.le_of_eq new⟩, fun _ => ⟨_, if_pos new⟩⟩
    · have old := ledger.numbered k
      have same : (b.addPass.setPost t (.waiting (b.count + 1) wake)).pass? k = b.pass? k :=
        if_neg new
      rw [same, old, Board.count_setPost, Board.count_addPass]
      omega
  · exact ledger.single
  · grind [ledger.asleep]
  · grind [ledger.absent]
  · intro j p found
    by_cases new : j = b.count + 1
    · subst new
      cases (if_pos rfl).symm.trans found
      refine ⟨t, _, by simp, if_pos rfl, .waiting rfl rfl ?_⟩
      intro left
      have := ledger.leaves (by simpa using left)
      exact away _ this
    · obtain ⟨u, post, opens, there, stands⟩ := ledger.passes ((if_neg new).symm.trans found)
      have other : u ≠ t := by
        rintro rfl
        exact away j opens
      exact ⟨u, post, by simp [opens], (if_neg other).trans there, stands.more (by simp)⟩
  · grind [→ ledger.opened]
  · grind [ledger.sole, → ledger.opened]
  · grind [ledger.holds, Post.pass?]
  · grind [ledger.leaves]
  · grind [ledger.behind]
  · intro u j q there found
    by_cases mine : u = t
    · obtain ⟨rfl, rfl⟩ : j = b.count ∧ wake = .ready := by
        simpa [Board.post?_setPost, mine, eq_comm] using there
      exact ready rfl q ((if_neg (by omega)).symm.trans found)
    · have there : b.post? u = some (.waiting (j + 1) .ready) ∨
          b.post? u = some (.running (j + 1)) := by
        simpa [Board.post?_setPost, Board.post?_addPass, mine] using there
      have old : j ≠ b.count + 1 := by
        rcases there with there | there <;> have := within there rfl <;> omega
      exact ledger.front there ((if_neg old).symm.trans found)
  · intro j p u found waits
    by_cases new : j = b.count + 1
    · cases (if_pos new).symm.trans found
      cases waits
    · exact List.mem_append_left _ (ledger.waiter ((if_neg new).symm.trans found) waits)

/-- What a pass remembers of others may change: who waits for it has to be right. -/
theorem setWaiters (ledger : Ledger b deeds) {p p' : Pass} (found : b.pass? k = some p)
    (done : p'.done = p.done) (state : p'.state = p.state)
    (waiters : ∀ u ∈ p'.waiters, .opens u (k + 1) ∈ deeds) :
    Ledger (b.setPass k p') deeds := by
  refine { ledger with numbered := ?_, passes := ?_, behind := ?_, front := ?_, waiter := ?_ }
  · exact fun j => (Board.exists_setPass found p' j).trans (ledger.numbered j)
  · intro j q found'
    by_cases same : j = k
    · subst same
      cases (if_pos rfl).symm.trans found'
      obtain ⟨u, post, opens, there, stands⟩ := ledger.passes found
      refine ⟨u, post, opens, there, ?_⟩
      cases stands with
      | waiting undone idle stays => exact .waiting (done.trans undone) (state.trans idle) stays
      | running undone stays => exact .running (done.trans undone) stays
      | settled finished stays => exact .settled (done.trans finished) stays
      | abandoned undone idle left => exact .abandoned (done.trans undone) (state.trans idle) left
    · exact ledger.passes ((if_neg same).symm.trans found')
  · grind [ledger.behind]
  · grind [ledger.front]
  · grind [ledger.waiter]

/-- A task goes on to another post with its pass. -/
theorem advance (ledger : Ledger b deeds) {p p' : Pass} {post post' : Post}
    (there : b.post? t = some post) (at_ : post.pass? = some k) (found : b.pass? k = some p)
    (awake : ∀ j, post' ≠ .waiting j .asleep)
    (same : post'.pass? = some k ∨ post' = .ended) (waiters : p'.waiters = p.waiters)
    (finished : p.done = true → p'.done = true)
    (turn : ∀ j q, k = j + 1 → b.pass? j = some q → q.done = true)
    (stands' : Stands deeds t k p' post') :
    Ledger ((b.setPass k p').setPost t post') deeds := by
  have opens : .opens t k ∈ deeds := ledger.holds there at_
  refine { ledger with
    numbered := ?_, asleep := ?_, absent := ?_, passes := ?_, holds := ?_,
    behind := ?_, front := ?_, waiter := ?_ }
  · exact fun j => (Board.exists_setPass found p' j).trans (ledger.numbered j)
  · grind [ledger.asleep]
  · grind [ledger.absent]
  · intro j q found'
    by_cases mine : j = k
    · subst mine
      cases (if_pos rfl).symm.trans found'
      exact ⟨t, post', opens, if_pos rfl, stands'⟩
    · obtain ⟨u, other, opens', there', stands⟩ := ledger.passes ((if_neg mine).symm.trans found')
      have apart : u ≠ t := by
        rintro rfl
        cases there.symm.trans there'
        cases stands <;> grind [Post.pass?]
      exact ⟨u, other, opens', (if_neg apart).trans there', stands⟩
  · grind [ledger.holds, Post.pass?]
  · grind [ledger.behind]
  · grind [ledger.front, Post.pass?]
  · grind [ledger.waiter]

/-- A task that sleeps among those that wait for a pass has the next one. -/
theorem next_of_waiter (ledger : Ledger b deeds) {p : Pass} {j u : Nat} (found : b.pass? k = some p)
    (waits : u ∈ p.waiters) (there : b.post? u = some (.waiting j .asleep)) : j = k + 1 := by
  obtain ⟨q, post, -, there', stands⟩ := ledger.stands (ledger.waiter found waits)
  cases there.symm.trans there'
  cases stands
  rfl

/-- The tasks that wait for a pass are woken when it is done. -/
theorem rouse (ledger : Ledger b deeds) {p : Pass} (found : b.pass? k = some p)
    (done : p.done = true) : Ledger (b.rouse p.waiters) deeds := by
  refine { ledger with
    single := ?_, asleep := ?_, absent := ?_, passes := ?_, holds := ?_, front := ?_ }
  · intro u
    cases there : (b.rouse p.waiters).post? u with
    | none => exact (Board.rouse_absent there).2 ▸ ledger.single u
    | some post =>
      rcases Board.rouse_cases there with ⟨j, -, asleep, -, once⟩ | ⟨-, same⟩
      · exact Nat.le_of_eq (once.trans (by rw [ledger.asleep asleep]))
      · exact same ▸ ledger.single u
  · intro u j there
    rcases Board.rouse_cases there with ⟨_, -, -, same, -⟩ | ⟨there, same⟩
    · cases same
    · exact same.trans (ledger.asleep there)
  · intro u missing
    obtain ⟨none, same⟩ := Board.rouse_absent missing
    exact same.trans (ledger.absent none)
  · intro j q found'
    obtain ⟨u, post, opens, there, stands⟩ := ledger.passes found'
    by_cases woken : u ∈ p.waiters
    · exact ⟨u, post.rouse, opens,
        by rw [Board.post?_rouse, if_pos woken, there]; rfl, stands.rouse⟩
    · exact ⟨u, post, opens, (if_neg woken).trans there, stands⟩
  · intro u post j there at_
    rcases Board.rouse_cases there with ⟨i, -, asleep, rfl, -⟩ | ⟨there, -⟩
    · exact ledger.holds asleep at_
    · exact ledger.holds there at_
  · intro u j q there found'
    rcases there with there | there
    · rcases Board.rouse_cases there with ⟨i, waits, asleep, same, -⟩ | ⟨there, -⟩
      · cases same
        have last := ledger.next_of_waiter found waits asleep
        obtain rfl : j = k := by omega
        cases found.symm.trans found'
        exact done
      · exact ledger.front (.inl there) found'
    · rcases Board.rouse_cases there with ⟨_, -, -, same, -⟩ | ⟨there, -⟩
      · cases same
      · exact ledger.front (.inr there) found'

/-- The pass of a task that ended is done, unless the task gave it up. -/
theorem done_iff_of_ended (ledger : Ledger b deeds) (opens : .opens t k ∈ deeds)
    (ended : b.post? t = some .ended) :
    ∃ p, b.pass? k = some p ∧ (p.done = true ↔ .abandons t k ∉ deeds) := by
  obtain ⟨p, post, found, there, stands⟩ := ledger.stands opens
  cases ended.symm.trans there
  refine ⟨p, found, ?_⟩
  cases stands with
  | settled done stays => exact iff_of_true done stays
  | abandoned undone idle left => simp [undone, left]

/-- Nothing at or after a pass that was given up ever starts. -/
theorem idle_of_abandons (ledger : Ledger b deeds) (left : .abandons t k ∈ deeds) {j : Nat}
    {p : Pass} (later : k ≤ j) (found : b.pass? j = some p) : p.done = false ∧ p.state = .idle := by
  have opens := ledger.leaves left
  induction later generalizing p with
  | refl =>
    obtain ⟨q, post, found', -, stands⟩ := ledger.stands opens
    cases found.symm.trans found'
    cases stands with
    | abandoned undone idle _ => exact ⟨undone, idle⟩
    | waiting _ _ stays => exact absurd left stays
    | running _ stays => exact absurd left stays
    | settled _ stays => exact absurd left stays
  | @step j later ih =>
    have within := (ledger.numbered (j + 1)).mp ⟨p, found⟩
    have first : 1 ≤ j := Nat.le_trans (ledger.opened opens).1 later
    obtain ⟨q, before⟩ := (ledger.numbered j).mpr (by omega)
    have undone := (ih before).1
    by_contra moved
    have started : p.done = true ∨ p.state ≠ .idle := by
      simpa [Classical.or_iff_not_imp_left] using moved
    rw [ledger.behind found started before] at undone
    cases undone

/-- With no task at a pass, the last one is open exactly if it was given up. -/
theorem undone_last_iff (ledger : Ledger b deeds)
    (rest : ∀ t post, b.post? t = some post → post.pass? = none) :
    (∃ p, b.pass? b.count = some p ∧ p.done = false) ↔ ∃ t, .abandons t b.count ∈ deeds := by
  constructor
  · rintro ⟨p, last, undone⟩
    obtain ⟨t, post, -, there, stands⟩ := ledger.passes last
    have away := rest t post there
    cases stands with
    | waiting | running => cases away
    | settled done => exact absurd undone (by simp [done])
    | abandoned _ _ left => exact ⟨t, left⟩
  · rintro ⟨t, left⟩
    obtain ⟨p, last⟩ := (ledger.numbered b.count).mpr (ledger.opened (ledger.leaves left))
    exact ⟨p, last, (ledger.idle_of_abandons left (Nat.le_refl _) last).1⟩

end Ledger

end ShaderFlow
