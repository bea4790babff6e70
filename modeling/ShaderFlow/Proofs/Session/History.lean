import ShaderFlow.Proofs.Session.Progress

set_option autoImplicit false

/-
Every source that a session delivers is what its graph evaluated to when the pass of that source
began, for the selector that the pass was asked for with. The account of all deliveries so far is an
invariant of the turns.
-/

namespace ShaderFlow

variable {ι : Type}

/-- The selector that a task brings along until its pass runs. -/
def Stage.selector? : Stage ι → Option (Option Json)
  | .fresh given | .waiting _ given _ => some given
  | _ => none

/-- A source handed to whoever waits for sources, with the pass and the task it comes from. -/
structure Delivery where
  pass : Nat
  task : Nat
  source : String

/-- What the task of a delivery returns. -/
def Delivery.result (δ : Delivery) : PassResult :=
  { pass := δ.pass, state := .committed, source := some δ.source }

namespace Session

/-- A session before its first pass. -/
structure IsNew (s : Session ι) : Prop where
  passes : s.passes = []
  tasks : s.tasks = []
  queue : s.queue = []
  lastSource : s.lastSource = none
  lastResult : s.lastResult = none
  delivered : s.delivered = []

theorem IsNew.pass? {s : Session ι} (new : s.IsNew) (k : Nat) : s.pass? k = none := by
  rw [Session.pass?, new.passes]
  rfl

theorem IsNew.stage? {s : Session ι} (new : s.IsNew) (t : Nat) : s.stage? t = none := by
  rw [Session.stage?, task?, new.tasks]
  rfl

theorem IsNew.passOrder {s : Session ι} (new : s.IsNew) : s.PassOrder 0 := by
  have pass := new.pass?
  exact {
    numbered := by rw [Numbered, new.passes]; rfl
    le := Nat.zero_le _
    done := by simp [pass]
    settled := by simp [pass]
    unsettled := by simp [pass]
    cancelled := by simp [pass]
    unwaited := by simp [pass] }

theorem IsNew.ranks {s : Session ι} (new : s.IsNew) : s.Ranks 0 none := by
  have stage := new.stage?
  exact { new.passOrder with
    waited := by simp [new.pass?]
    idle := by simp [stage]
    quiet := by simp [task?, new.tasks]
    stages := by simp [stage]
    queued := fun t _ => by rw [Session.dues, new.queue, List.count_nil]
    held := fun held => by cases held
    front := by simp [new.passes]
    sole := by simp [Fronting, stage] }

/-- A pass gets under way. -/
def Starts (s s' : Session ι) (k : Nat) : Prop :=
  (∀ p, s.pass? k = some p → p.state = .idle) ∧ ∃ p, s'.pass? k = some p ∧ p.state ≠ .idle

variable [BEq ι] [NodeId ι]

/-- Whether some turn does what is asked of it. -/
def Sometime (s₀ : Session ι) (turns : List (Turn ι)) (P : Session ι → Turn ι → Session ι → Prop) :
    Prop :=
  ∃ before turn after, turns = before ++ turn :: after ∧
    P (s₀.play before) turn ((s₀.play before).take turn)

/-- Some turn asked for task `t` with a selector. -/
def Asked (s₀ : Session ι) (turns : List (Turn ι)) (t : Nat) (given : Option Json) : Prop :=
  s₀.Sometime turns fun s turn s' =>
    s.tasks.length = t ∧ s'.tasks.length = t + 1 ∧ turn.given = given

/-- Pass `k` began for the selector of task `t`, and its graph evaluated to `result` then. -/
def Began (s₀ : Session ι) (turns : List (Turn ι)) (k t : Nat) (result : Except Error String) :
    Prop :=
  ∃ given, s₀.Asked turns t given ∧ s₀.Sometime turns fun s _ s' =>
    Starts s s' k ∧ (s.graph.evaluate s.target (given <|> s.selector) false).outcome = result

variable {s₀ s s' : Session ι} {turns : List (Turn ι)} {turn : Turn ι}

theorem play_append (s : Session ι) (turns more : List (Turn ι)) :
    s.play (turns ++ more) = (s.play turns).play more :=
  List.foldl_append

theorem Sometime.more {P : Session ι → Turn ι → Session ι → Prop} (sometime : s₀.Sometime turns P)
    (turn : Turn ι) : s₀.Sometime (turns ++ [turn]) P := by
  obtain ⟨before, now, after, rfl, holds⟩ := sometime
  exact ⟨before, now, after ++ [turn], by simp, holds⟩

theorem Sometime.last {P : Session ι → Turn ι → Session ι → Prop}
    (holds : P (s₀.play turns) turn ((s₀.play turns).take turn)) :
    s₀.Sometime (turns ++ [turn]) P :=
  ⟨turns, turn, [], rfl, holds⟩

theorem Began.more {k t : Nat} {result : Except Error String} (began : s₀.Began turns k t result)
    (turn : Turn ι) : s₀.Began (turns ++ [turn]) k t result := by
  obtain ⟨given, asked, sometime⟩ := began
  exact ⟨given, asked.more turn, sometime.more turn⟩

/-- The deliveries of a session so far are accounted for. -/
structure Account (s₀ : Session ι) (turns : List (Turn ι)) (s : Session ι)
    (deliveries : List Delivery) : Prop where
  asked : ∀ {t stage given}, s.stage? t = some stage → stage.selector? = some given →
    s₀.Asked turns t given
  running : ∀ {t k e nodes}, s.stage? t = some (.running k e nodes) →
    s₀.Began turns k t (e.rest s.target)
  delivered : s.delivered = deliveries.map Delivery.source
  ordered : (deliveries.map Delivery.pass).Pairwise (· < ·)
  committed : ∀ k, k ∈ deliveries.map Delivery.pass ↔ ∃ p, s.pass? k = some p ∧ p.state = .committed
  origin : ∀ δ ∈ deliveries, s₀.Began turns δ.pass δ.task (.ok δ.source) ∧
    s.stage? δ.task = some (.ended (.returned δ.result))
  last : s.lastSource = s.delivered.getLast?

variable {d t size : Nat} {result : Except Error String} {deliveries : List Delivery}

theorem IsNew.account (new : s₀.IsNew) : Account s₀ [] s₀ [] := by
  have stage := new.stage?
  have pass := new.pass?
  constructor
  · simp [stage]
  · simp [stage]
  · exact new.delivered
  · exact List.Pairwise.nil
  · simp [pass]
  · simp
  · rw [new.lastSource, new.delivered]
    rfl

/-- A turn that ends no pass keeps the account. -/
theorem Account.keep (account : Account s₀ turns s deliveries)
    (asked : ∀ {t stage given}, s'.stage? t = some stage → stage.selector? = some given →
      s₀.Asked (turns ++ [turn]) t given)
    (running : ∀ {t k e nodes}, s'.stage? t = some (.running k e nodes) →
      s₀.Began (turns ++ [turn]) k t (e.rest s'.target))
    (ended : ∀ u outcome, s.stage? u = some (.ended outcome) → s'.stage? u = some (.ended outcome))
    (committed : ∀ k, (∃ p, s'.pass? k = some p ∧ p.state = .committed) ↔
      ∃ p, s.pass? k = some p ∧ p.state = .committed)
    (results : s'.lastSource = s.lastSource ∧ s'.delivered = s.delivered) :
    Account s₀ (turns ++ [turn]) s' deliveries := by
  obtain ⟨lastSource, delivered⟩ := results
  constructor
  · exact asked
  · exact running
  · exact delivered.trans account.delivered
  · exact account.ordered
  · exact fun k => (account.committed k).trans (committed k).symm
  · intro δ member
    obtain ⟨began, returned⟩ := account.origin δ member
    exact ⟨began.more turn, ended _ _ returned⟩
  · rw [lastSource, delivered, account.last]

/-- A turn that commits a pass behind all committed ones adds its delivery to the account. -/
theorem Account.add {δ : Delivery} (account : Account s₀ turns s deliveries)
    (asked : ∀ {t stage given}, s'.stage? t = some stage → stage.selector? = some given →
      s₀.Asked (turns ++ [turn]) t given)
    (running : ∀ {t k e nodes}, s'.stage? t = some (.running k e nodes) →
      s₀.Began (turns ++ [turn]) k t (e.rest s'.target))
    (ended : ∀ u outcome, s.stage? u = some (.ended outcome) → s'.stage? u = some (.ended outcome))
    (behind : ∀ k p, s.pass? k = some p → p.state = .committed → k < δ.pass)
    (committed : ∀ k, (∃ p, s'.pass? k = some p ∧ p.state = .committed) ↔
      (∃ p, s.pass? k = some p ∧ p.state = .committed) ∨ k = δ.pass)
    (began : s₀.Began (turns ++ [turn]) δ.pass δ.task (.ok δ.source))
    (returned : s'.stage? δ.task = some (.ended (.returned δ.result)))
    (results : s'.lastSource = some δ.source ∧ s'.delivered = s.delivered ++ [δ.source]) :
    Account s₀ (turns ++ [turn]) s' (deliveries ++ [δ]) := by
  obtain ⟨lastSource, delivered⟩ := results
  constructor
  · exact asked
  · exact running
  · rw [delivered, account.delivered, List.map_append]
    rfl
  · rw [List.map_append]
    refine List.pairwise_append.mpr ⟨account.ordered, List.pairwise_singleton .., ?_⟩
    intro k member j new
    obtain ⟨p, found, commits⟩ := (account.committed k).mp member
    rw [List.mem_singleton.mp new]
    exact behind k p found commits
  · intro k
    rw [List.map_append, List.mem_append, account.committed k, committed k]
    exact or_congr_right List.mem_singleton
  · intro δ' member
    rcases List.mem_append.mp member with old | new
    · obtain ⟨before, still⟩ := account.origin δ' old
      exact ⟨before.more turn, ended _ _ still⟩
    · rw [List.mem_singleton.mp new]
      exact ⟨began, returned⟩
  · rw [lastSource, delivered]
    exact List.getLast?_concat.symm

theorem Account.aside (account : Account s₀ turns s deliveries) (same : Aside s s')
    (turn : Turn ι) :
    Account s₀ (turns ++ [turn]) s' deliveries := by
  have stage := same.stage?_eq
  have pass := same.pass?_eq
  refine account.keep ?_ ?_ (by simp [stage]) (by simp [pass]) ⟨same.lastSource, same.delivered⟩
  · intro t at_ given present selects
    rw [stage] at present
    exact (account.asked present selects).more turn
  · intro t k e nodes present
    rw [stage] at present
    rw [same.target]
    exact (account.running present).more turn

/-- A new task is accounted for by the turn that makes it. -/
theorem Account.spawned {observers : Nat → List Job} (account : Account s₀ turns s deliveries)
    (reached : s₀.play turns = s) (made : s.take turn = s')
    (same : Aside (s.spawn turn.given observers).1 s') :
    Account s₀ (turns ++ [turn]) s' deliveries := by
  have stage : ∀ u, s'.stage? u =
      if u = s.tasks.length then some (.fresh turn.given) else s.stage? u := by
    rw [same.stage?_eq]
    exact s.stage?_spawn turn.given observers
  have pass : s'.pass? = s.pass? := same.pass?_eq
  refine account.keep ?_ ?_ ?_ (by simp [pass]) ⟨same.lastSource, same.delivered⟩
  · intro u at_ given present selects
    rw [stage] at present
    split at present
    · rename_i here
      cases present
      cases selects
      refine Sometime.last ?_
      rw [reached, made, here, same.tasks]
      exact ⟨rfl, List.length_append, rfl⟩
    · exact (account.asked present selects).more turn
  · intro u k e nodes present
    rw [stage] at present
    split at present
    · cases present
    · rw [same.target]
      exact (account.running present).more turn
  · intro u outcome present
    rw [stage, if_neg (Nat.ne_of_lt (lt_of_stage? present)), present]

/-- A task that gets in line keeps its selector. -/
theorem Account.queued {given : Option Json} {previous : Pass} {i : Nat}
    (account : Account s₀ turns s deliveries) (ranks : s.Ranks d none)
    (fresh : s.stage? t = some (.fresh given)) (last : s.pass? s.passes.length = some previous)
    (turn : Turn ι) (log : List Event) :
    Account s₀ (turns ++ [turn]) { (s.taken i).queueUp t previous given with log } deliveries := by
  have stage : ∀ u, { (s.taken i).queueUp t previous given with log }.stage? u = _ :=
    stage?_queueUp fresh i previous
  have pass : ∀ k, { (s.taken i).queueUp t previous given with log }.pass? k = _ :=
    ranks.pass?_queueUp last i t given
  refine account.keep ?_ ?_ ?_ ?_ ⟨rfl, rfl⟩
  · intro u at_ given' present selects
    rw [stage] at present
    split at present
    · rename_i here
      cases present
      cases selects
      rw [here]
      exact (account.asked fresh rfl).more turn
    · exact (account.asked present selects).more turn
  · intro u k e nodes present
    rw [stage] at present
    split at present
    · cases present
    · exact (account.running present).more turn
  · intro u outcome present
    rw [stage, if_neg, present]
    rintro rfl
    rw [fresh] at present
    cases present
  · intro k
    rw [pass]
    split
    · rename_i here
      rw [here, last]
      simp
    · split
      · rename_i here
        have absent : s.pass? k = none := by
          rw [Option.eq_none_iff_forall_ne_some]
          intro p found
          have := (ranks.numbered.exists_iff k).mp ⟨p, found⟩
          omega
        simp [absent]
      · rfl

omit [BEq ι] [NodeId ι] in
/-- Only passes that are done are committed. -/
theorem Ranks.le_of_committed {k : Nat} {p : Pass} (ranks : s.Ranks d none)
    (found : s.pass? k = some p) (committed : p.state = .committed) : k ≤ d := by
  by_contra behind
  rcases ranks.unsettled found (by omega) with idle | ⟨running, -⟩
  · rw [idle] at committed
    cases committed
  · rw [running] at committed
    cases committed

/-- The pass of a task that has its turn began for the selector of that task. -/
theorem Account.began (account : Account s₀ turns s deliveries) (ranks : s.Ranks d none)
    (reached : s₀.play turns = s) (made : s.take turn = s') (source : Source s s' d t result size) :
    s₀.Began (turns ++ [turn]) (d + 1) t result := by
  cases source with
  | @opened given _ stage settled count begun =>
    refine ⟨given, (account.asked stage rfl).more turn, Sometime.last ?_⟩
    rw [reached, made]
    refine ⟨⟨?_, begun⟩, rfl⟩
    intro p found
    have := (ranks.numbered.exists_iff (d + 1)).mp ⟨p, found⟩
    omega
  | @started given _ stage count begun =>
    refine ⟨given, (account.asked stage rfl).more turn, Sometime.last ?_⟩
    rw [reached, made]
    exact ⟨⟨fun p found => ranks.idle stage (by simp) found, begun⟩, rfl⟩
  | continued stage => exact (account.running stage).more turn

theorem Source.not_ended (source : Source s s' d t result size) {outcome : TaskOutcome} :
    s.stage? t ≠ some (.ended outcome) := by
  intro ended
  cases source with
  | opened stage | started stage | continued stage =>
    rw [stage] at ended
    cases ended

/-- A pass that is suspended keeps what it comes to. -/
theorem Account.suspended {e : Evaluation ι} {i nodes : Nat}
    (account : Account s₀ turns s deliveries)
    (ranks : s.Ranks d none) (ranks' : s'.Ranks d none) (frame : Frame s i d s')
    (began : s₀.Began (turns ++ [turn]) (d + 1) t (e.rest s.target))
    (unended : ∀ outcome, s.stage? t ≠ some (.ended outcome))
    (stages : ∀ u, s'.stage? u = if u = t then some (.running (d + 1) e nodes) else s.stage? u)
    (results : s'.lastSource = s.lastSource ∧ s'.delivered = s.delivered) :
    Account s₀ (turns ++ [turn]) s' deliveries := by
  refine account.keep ?_ ?_ ?_ ?_ results
  · intro u at_ given present selects
    rw [stages] at present
    split at present
    · cases present
      cases selects
    · exact (account.asked present selects).more turn
  · intro u k e' nodes' present
    rw [stages] at present
    rw [frame.steady.target]
    split at present
    · rename_i here
      cases present
      rw [here]
      exact began
    · exact (account.running present).more turn
  · intro u outcome present
    rw [stages, if_neg, present]
    rintro rfl
    exact unended outcome present
  · intro k
    by_cases first : k = d + 1
    · constructor
      · rintro ⟨p, found, committed⟩
        have := ranks'.le_of_committed found committed
        omega
      · rintro ⟨p, found, committed⟩
        have := ranks.le_of_committed found committed
        omega
    · rw [frame.passes k first]

/-- What a pass delivers at its end is accounted for. -/
theorem Account.ended {cancelled : Bool} {state : PassState} {outcome : TaskOutcome} {i : Nat}
    (account : Account s₀ turns s deliveries) (ranks : s.Ranks d none) (frame : Frame s i d s')
    (began : s₀.Began (turns ++ [turn]) (d + 1) t result)
    (unended : ∀ outcome, s.stage? t ≠ some (.ended outcome))
    (settles : Settles (d + 1) cancelled result state outcome)
    (mine : s'.stage? t = some (.ended outcome))
    (others : ∀ u, u ≠ t → s'.stage? u = s.stage? u ∨ ∃ given,
      s.stage? u = some (.waiting (d + 2) given .asleep) ∧
        s'.stage? u = some (.waiting (d + 2) given .ready))
    (results : s'.lastSource = (outcome.delivery? <|> s.lastSource) ∧
      s'.delivered = s.delivered ++ outcome.delivery?.toList)
    (first : ∃ p, s'.pass? (d + 1) = some p ∧ p.state = state) :
    ∃ more, Account s₀ (turns ++ [turn]) s' (deliveries ++ more) := by
  obtain ⟨p, found, closes⟩ := first
  have asked : ∀ {u stage given}, s'.stage? u = some stage → stage.selector? = some given →
      s₀.Asked (turns ++ [turn]) u given := by
    intro u stage given present selects
    by_cases here : u = t
    · rw [here, mine] at present
      cases present
      cases selects
    · rcases others u here with same | ⟨given', asleep, ready⟩
      · rw [same] at present
        exact (account.asked present selects).more turn
      · rw [ready] at present
        cases present
        exact (account.asked asleep selects).more turn
  have running : ∀ {u k e nodes}, s'.stage? u = some (.running k e nodes) →
      s₀.Began (turns ++ [turn]) k u (e.rest s'.target) := by
    intro u k e nodes present
    by_cases here : u = t
    · rw [here, mine] at present
      cases present
    · rw [frame.steady.target]
      rcases others u here with same | ⟨given', asleep, ready⟩
      · rw [same] at present
        exact (account.running present).more turn
      · rw [ready] at present
        cases present
  have ended : ∀ u outcome, s.stage? u = some (.ended outcome) →
      s'.stage? u = some (.ended outcome) := by
    intro u outcome' present
    have other : u ≠ t := by
      rintro rfl
      exact unended outcome' present
    rcases others u other with same | ⟨given', asleep, -⟩
    · rw [same, present]
    · rw [asleep] at present
      cases present
  have behind : ∀ k p, s.pass? k = some p → p.state = .committed → k < d + 1 :=
    fun k p old commits => Nat.lt_succ_of_le (ranks.le_of_committed old commits)
  obtain ⟨lastSource, delivered⟩ := results
  cases settles with
  | @committed source live same =>
    refine ⟨[⟨d + 1, t, source⟩],
      account.add asked running ended behind ?_ (same ▸ began) mine ⟨lastSource, delivered⟩⟩
    intro k
    by_cases here : k = d + 1
    · subst here
      exact ⟨fun _ => .inr rfl, fun _ => ⟨p, found, closes⟩⟩
    · rw [frame.passes k here]
      exact (or_iff_left here).symm
  | dropped | aborted | broken =>
    refine ⟨[], ?_⟩
    rw [List.append_nil]
    refine account.keep asked running ended ?_ ⟨lastSource, delivered.trans (List.append_nil _)⟩
    intro k
    by_cases here : k = d + 1
    · subst here
      constructor
      · rintro ⟨q, there, commits⟩
        rw [found] at there
        cases there
        rw [closes] at commits
        cases commits
      · rintro ⟨q, old, commits⟩
        exact absurd (behind _ q old commits) (lt_irrefl _)
    · rw [frame.passes k here]

/-- Every turn extends the account. -/
theorem Account.takes (account : Account s₀ turns s deliveries) (ranks : s.Ranks d none)
    (reached : s₀.play turns = s) (made : s.take turn = s') (takes : Takes s d turn s') :
    ∃ more, Account s₀ (turns ++ [turn]) s' (deliveries ++ more) := by
  have kept : Account s₀ (turns ++ [turn]) s' deliveries →
      ∃ more, Account s₀ (turns ++ [turn]) s' (deliveries ++ more) := fun account =>
    ⟨[], by rwa [List.append_nil]⟩
  cases takes with
  | aside same => exact kept (account.aside same turn)
  | spawned observers calm same => exact kept (account.spawned reached made same)
  | queued queued fresh undone last same =>
    obtain ⟨log, rfl⟩ := same
    exact kept (account.queued ranks fresh last _ log)
  | ran queued source line frame effect =>
    have began := account.began ranks reached made source
    cases effect with
    | suspended ranks' same fewer stages results =>
      exact kept (account.suspended ranks ranks' frame (same ▸ began) (fun _ => source.not_ended)
        stages results.2)
    | ended ranks' settles mine others results first =>
      obtain ⟨p, found, closes, -⟩ := first
      exact account.ended ranks frame began (fun _ => source.not_ended) settles mine others
        results.2 ⟨p, found, closes⟩

/-- The passes of every course are in line, and its deliveries are accounted for. -/
theorem IsNew.exists_account (new : s₀.IsNew) (turns : List (Turn ι)) :
    ∃ d deliveries, (s₀.play turns).Ranks d none ∧ Account s₀ turns (s₀.play turns) deliveries := by
  induction turns using List.reverseRecOn with
  | nil => exact ⟨0, [], new.ranks, new.account⟩
  | append_singleton turns turn ih =>
    obtain ⟨d, deliveries, ranks, account⟩ := ih
    have takes := take_takes ranks turn
    obtain ⟨d', -, ranks'⟩ := ranks.takes takes
    obtain ⟨more, account'⟩ := account.takes ranks rfl rfl takes
    rw [play_append]
    exact ⟨d', deliveries ++ more, ranks', account'⟩

omit [BEq ι] [NodeId ι] in
theorem Ranks.running_of_begun {k : Nat} {p : Pass} (ranks : s.Ranks d none)
    (found : s.pass? k = some p)
    (behind : d < k) (begun : p.state ≠ .idle) : p.state = .running ∧ k = d + 1 :=
  (ranks.unsettled found behind).resolve_left begun

/-- A turn loses no pass. What began stays begun, what is cancelled stays so, and what is done stays
as it is. -/
theorem Takes.keeps {k : Nat} {p : Pass} (takes : Takes s d turn s') (ranks : s.Ranks d none)
    (found : s.pass? k = some p) :
    ∃ q, s'.pass? k = some q ∧ (p.state ≠ .idle → q.state ≠ .idle) ∧
      (p.cancelled = true → q.cancelled = true) ∧ (k ≤ d → q = p) := by
  have kept : s'.pass? k = some p → ∃ q, s'.pass? k = some q ∧ (p.state ≠ .idle → q.state ≠ .idle) ∧
      (p.cancelled = true → q.cancelled = true) ∧ (k ≤ d → q = p) := fun found =>
    ⟨p, found, id, id, fun _ => rfl⟩
  cases takes with
  | aside same => exact kept (by rw [same.pass?_eq, found])
  | spawned observers calm same => exact kept (by rw [same.pass?_eq]; exact found)
  | @queued i t given previous _ queued fresh undone last same =>
    obtain ⟨log, rfl⟩ := same
    have pass := ranks.pass?_queueUp last i t given k
    have within := (ranks.numbered.exists_iff k).mp ⟨p, found⟩
    by_cases here : k = s.passes.length
    · rw [here, last] at found
      cases found
      rw [if_pos here] at pass
      exact ⟨_, pass, id, fun _ => rfl, by omega⟩
    · rw [if_neg here, if_neg (by omega), found] at pass
      exact kept pass
  | ran queued source line frame effect =>
    by_cases here : k = d + 1
    · subst here
      have stopped : p.cancelled = true → decide (d + 1 < s'.passes.length) = true := by
        intro marked
        rw [ranks.cancelled found (Nat.lt_succ_self d)] at marked
        have more : s.passes.length ≤ s'.passes.length := by
          cases source with
          | opened stage settled count | started stage count | continued stage count => omega
        simp only [decide_eq_true_eq] at marked ⊢
        omega
      have begun : p.state ≠ .idle → ∃ q, s'.pass? (d + 1) = some q ∧ q.state ≠ .idle := by
        intro begun
        have running := (ranks.running_of_begun found (Nat.lt_succ_self d) begun).1
        cases source with
        | opened stage settled count begun | started stage count begun => exact begun
        | continued stage count begun =>
          refine begun fun q there => ?_
          rw [found] at there
          cases there
          exact running
      obtain ⟨q, there, marked⟩ : ∃ q, s'.pass? (d + 1) = some q ∧
          q.cancelled = decide (d + 1 < s'.passes.length) := by
        cases effect with
        | suspended ranks' =>
          have within := (ranks.numbered.exists_iff (d + 1)).mp ⟨p, found⟩
          obtain ⟨q, there⟩ := (ranks'.numbered.exists_iff (d + 1)).mpr (by
            cases source with
            | opened stage settled count | started stage count | continued stage count => omega)
          exact ⟨q, there, ranks'.cancelled there (Nat.lt_succ_self d)⟩
        | ended ranks' settles mine others results first =>
          obtain ⟨q, there, -, marked⟩ := first
          exact ⟨q, there, marked.trans line⟩
      refine ⟨q, there, ?_, fun before => marked.trans (stopped before), by omega⟩
      intro before
      obtain ⟨q', there', begun'⟩ := begun before
      rw [there] at there'
      cases there'
      exact begun'
    · exact kept (by rw [frame.passes k here, found])

omit [BEq ι] [NodeId ι] in
/-- The pass that runs is the first one that is not done. -/
theorem Ranks.eq_of_running {k : Nat} {p : Pass} (ranks : s.Ranks d none)
    (found : s.pass? k = some p) (running : p.state = .running) : k = d + 1 := by
  by_cases behind : d < k
  · exact (ranks.running_of_begun found behind (by simp [running])).2
  · rcases ranks.settled found (by omega) with ⟨finished, -⟩ | finished
    all_goals
      rw [running] at finished
      cases finished

omit [BEq ι] [NodeId ι] in
theorem Ranks.aborted_of_cancelled {k : Nat} {p : Pass} (ranks : s.Ranks d none)
    (found : s.pass? k = some p) (marked : p.cancelled = true) :
    p.state ≠ .committed ∧ (p.done = true → p.state = .aborted) := by
  by_cases within : k ≤ d
  · rcases ranks.settled found within with ⟨-, live⟩ | finished
    · rw [marked] at live
      cases live
    · exact ⟨by simp [finished], fun _ => finished⟩
  · refine ⟨fun committed => within (ranks.le_of_committed found committed), fun done => ?_⟩
    rw [ranks.done found] at done
    exact absurd (of_decide_eq_true done) within

theorem Ranks.play_keeps {k : Nat} {p : Pass} (ranks : s.Ranks d none) (found : s.pass? k = some p)
    (turns : List (Turn ι)) :
    ∃ q, (s.play turns).pass? k = some q ∧ (p.cancelled = true → q.cancelled = true) := by
  induction turns generalizing s d p with
  | nil => exact ⟨p, found, id⟩
  | cons turn turns ih =>
    have takes := take_takes ranks turn
    obtain ⟨d', -, ranks'⟩ := ranks.takes takes
    obtain ⟨q, there, -, marked, -⟩ := takes.keeps ranks found
    obtain ⟨q', last, marked'⟩ := ih ranks' there
    exact ⟨q', last, marked' ∘ marked⟩

/-- A pass gets under way when it is the first one that is not done. -/
theorem Takes.starts {k : Nat} (takes : Takes s d turn s') (ranks : s.Ranks d none)
    (starts : Starts s s' k) : k = d + 1 := by
  obtain ⟨idle, q, there, begun⟩ := starts
  have moved : s'.pass? k ≠ s.pass? k := by
    intro same
    exact begun (idle q (by rw [← same, there]))
  cases takes with
  | aside same => exact absurd (by rw [same.pass?_eq]) moved
  | spawned observers calm same => exact absurd (by rw [same.pass?_eq]; rfl) moved
  | @queued i t given previous _ queued fresh undone last same =>
    obtain ⟨log, rfl⟩ := same
    have pass := ranks.pass?_queueUp last i t given k
    rw [show ((s.taken i).queueUp t previous given).pass? k = some q from there] at pass
    split at pass
    · rename_i here
      cases pass
      rw [here] at idle
      exact absurd (idle _ last) begun
    · split at pass
      · cases pass
        exact absurd rfl begun
      · exact absurd (idle q pass.symm) begun
  | ran queued source line frame effect =>
    by_contra other
    exact moved (frame.passes k other)

/-- Of every session and whatever is asked of it, in any order: at most one pass runs at a time. A
pass gets under way once, when all passes before it are done. A cancelled pass does not commit, and
when the jobs have run it is aborted. Exactly the committed passes are delivered, one after the
other by their number, each with what the graph evaluated to when it began, and the last source is
the one delivered last. -/
theorem play_single_flight (new : s₀.IsNew) (turns : List (Turn ι)) (reached : s₀.play turns = s) :
    (∀ j k p q, s.pass? j = some p → p.state = .running → s.pass? k = some q → q.state = .running →
        j = k) ∧
      (∀ turn k, Starts s (s.take turn) k →
        ∀ j, 1 ≤ j → j < k → ∃ p, s.pass? j = some p ∧ p.done = true) ∧
      (∀ turn k p, s.pass? k = some p → p.state ≠ .idle →
        ∃ q, (s.take turn).pass? k = some q ∧ q.state ≠ .idle) ∧
      (∀ k p, s.pass? k = some p → p.cancelled = true →
        p.state ≠ .committed ∧ (p.done = true → p.state = .aborted)) ∧
      (∃ jobs, ∀ k p, s.pass? k = some p →
        ∃ q, (s.play (List.replicate jobs (.job 0))).pass? k = some q ∧ q.done = true ∧
          (p.cancelled = true → q.state = .aborted)) ∧
      (∃ deliveries : List Delivery, s.delivered = deliveries.map Delivery.source ∧
        (deliveries.map Delivery.pass).Pairwise (· < ·) ∧
        (∀ k, k ∈ deliveries.map Delivery.pass ↔
          ∃ p, s.pass? k = some p ∧ p.state = .committed) ∧
        ∀ δ ∈ deliveries, s₀.Began turns δ.pass δ.task (.ok δ.source) ∧
          s.stage? δ.task = some (.ended (.returned δ.result))) ∧
      s.lastSource = s.delivered.getLast? ∧
      ∀ turn, s.delivered <+: (s.take turn).delivered := by
  obtain ⟨d, deliveries, ranks, account⟩ := new.exists_account turns
  rw [reached] at ranks account
  refine ⟨?_, ?_, ?_, fun k p => ranks.aborted_of_cancelled, ?_, ?_, account.last, ?_⟩
  · intro j k p q one oneRuns two twoRuns
    rw [ranks.eq_of_running one oneRuns, ranks.eq_of_running two twoRuns]
  · intro turn k starts j positive before
    have first := (take_takes ranks turn).starts ranks starts
    have le := ranks.le
    obtain ⟨p, found⟩ := (ranks.numbered.exists_iff j).mpr ⟨positive, by omega⟩
    exact ⟨p, found, by rw [ranks.done found]; exact decide_eq_true (by omega)⟩
  · intro turn k p found begun
    obtain ⟨q, there, stays, -⟩ := (take_takes ranks turn).keeps ranks found
    exact ⟨q, there, stays begun⟩
  · obtain ⟨jobs, drained⟩ := exists_drained s d ranks
    refine ⟨jobs, fun k p found => ?_⟩
    obtain ⟨d', -, ranks'⟩ := exists_ranks_play ranks (List.replicate jobs (.job 0))
    obtain ⟨q, there, marked⟩ := ranks.play_keeps found (List.replicate jobs (.job 0))
    have within := (ranks'.numbered.exists_iff k).mp ⟨q, there⟩
    rw [← ranks'.all_done drained] at within
    have done : q.done = true := by
      rw [ranks'.done there]
      exact decide_eq_true within.2
    exact ⟨q, there, done, fun before => (ranks'.aborted_of_cancelled there (marked before)).2 done⟩
  · exact ⟨deliveries, account.delivered, account.ordered, account.committed, account.origin⟩
  · intro turn
    obtain ⟨more, account'⟩ := account.takes ranks reached rfl (take_takes ranks turn)
    rw [account'.delivered, account.delivered, List.map_append]
    exact List.prefix_append ..

/-- A session whose graph is a lone sink. -/
def blank : Session Int :=
  { graph := Graph.run {} [.add (.str "Canvas") (.arr [.int 0, .int 0]) (.obj []) none] }

/-- Two passes are asked for. The first one runs a node, and then the second one gets in line. -/
def overtaking : List (Turn Int) := [.process none, .process none, .job 0, .job 0]

/-- The first pass is cancelled in the middle, and it is aborted. -/
theorem play_single_flight_overtaking :
    (((blank.play overtaking).pass? 1).map fun p => (p.state, p.cancelled)) =
        some (.running, true) ∧
      ∃ jobs q, ((blank.play overtaking).play (List.replicate jobs (.job 0))).pass? 1 = some q ∧
        q.done = true ∧ q.state = .aborted := by
  have shown : (((blank.play overtaking).pass? 1).map fun p => (p.state, p.cancelled)) =
      some (.running, true) := by decide +kernel
  have new : blank.IsNew := ⟨rfl, rfl, rfl, rfl, rfl, rfl⟩
  obtain ⟨-, -, -, -, ⟨jobs, ends⟩, -⟩ := play_single_flight new overtaking rfl
  obtain ⟨p, found, same⟩ := Option.map_eq_some_iff.mp shown
  obtain ⟨q, there, done, aborted⟩ := ends 1 p found
  exact ⟨shown, jobs, q, there, done, aborted (congrArg Prod.snd same)⟩

end Session

end ShaderFlow
