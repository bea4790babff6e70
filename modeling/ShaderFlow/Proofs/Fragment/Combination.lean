import ShaderFlow.Proofs.Fragment.Scope

set_option autoImplicit false

/-
A fragment is well scoped when its definitions refer to earlier ones only, its value refers to its
definitions, and each name has one definition. Combining well-scoped fragments that agree on their
names, or naming a value, gives a well-scoped fragment. The combined statements are those of the
parts, each where it comes first.
-/

namespace ShaderFlow

open Definition

namespace Sequenced

variable {α β : Type} {key : α → β} {needs : α → β → Prop} {xs ys : List α}

/-- What follows a list may need what the list holds. -/
theorem append_beyond (first : Sequenced key needs xs)
    (second : Sequenced key (fun a b => needs a b ∧ b ∉ xs.map key) ys) :
    Sequenced key needs (xs ++ ys) := by
  induction ys using List.reverseRecOn with
  | nil => simpa using first
  | append_singleton ys a ih =>
    rw [← List.append_assoc]
    refine (ih second.of_append).snoc fun b need => ?_
    rw [List.map_append, List.mem_append]
    by_cases known : b ∈ xs.map key
    · exact .inl known
    · exact .inr (second.last_met b ⟨need, known⟩)

/-- To be in sequence is a matter of finitely many places. -/
theorem of_places {needs : α → List β}
    (met : ∀ i : Fin xs.length, ∀ b ∈ needs (xs.get i), b ∈ (xs.take i).map key) :
    Sequenced key (fun a b => b ∈ needs a) xs := by
  rintro front a back rfl b need
  have before := met ⟨front.length, by simp⟩ b (by simpa using need)
  simpa using before

end Sequenced

namespace Term

/-- The names that a term refers to. With `deep` those in the initializers of its shared variables
count too. -/
abbrev references (deep : Bool) : Term → List String := gather refName deep

theorem alike_refl (t : Term) : t.alike t = true := (alike_iff t t).mpr rfl

theorem alike_trans {t u v : Term} (first : t.alike u = true) (second : u.alike v = true) :
    t.alike v = true :=
  (alike_iff t v).mpr (((alike_iff t u).mp first).trans ((alike_iff u v).mp second))

/-- What counts as one with a definition is a definition that counts as one with it. -/
theorem exists_definition_of_alike {t : Term} {d : Definition} (same : t.alike d.toTerm = true) :
    ∃ e : Definition, t = e.toTerm ∧ e.alike d = true := by
  cases t with
  | define name type init => exact ⟨⟨name, type, init⟩, rfl, same⟩
  | _ => simp [alike, toTerm] at same

end Term

namespace Definition

theorem among_append (ss ts : List Term) : among (ss ++ ts) = among ss ++ among ts :=
  List.filterMap_append ..

theorem among_singleton (t : Term) : among [t] = (ofTerm? t).toList := by
  cases t <;> rfl

/-- Without conflicts, definitions of one name count as one. -/
theorem not_conflict_iff {ds : List Definition} : (∀ n, ¬ Conflict ds n) ↔
    ∀ d ∈ ds, ∀ e ∈ ds, d.name = e.name → d.alike e = true := by
  constructor
  · intro agree d inD e inE named
    rw [← Bool.not_eq_false]
    exact fun apart => agree e.name ⟨d, inD, e, inE, named, rfl, apart⟩
  · rintro agree n ⟨d, inD, e, inE, rfl, named, apart⟩
    rw [agree d inD e inE named.symm] at apart
    cases apart

theorem not_conflict_mono {ds es : List Definition} (subset : ds ⊆ es)
    (agree : ∀ n, ¬ Conflict es n) :
    ∀ n, ¬ Conflict ds n := by
  rw [not_conflict_iff] at agree ⊢
  exact fun d inD e inE => agree d (subset inD) e (subset inE)

/-- Definitions that agree with all before them and with each other can be added. -/
theorem not_conflict_append {ds es : List Definition} (agree : ∀ n, ¬ Conflict ds n)
    (later : ∀ e ∈ es, ∀ d ∈ ds ++ es, e.name = d.name → e.alike d = true) :
    ∀ n, ¬ Conflict (ds ++ es) n := by
  rw [not_conflict_iff] at agree ⊢
  intro d inD e inE named
  rcases List.mem_append.mp inD with first | last
  · rcases List.mem_append.mp inE with first' | last'
    · exact agree d first e first' named
    · exact alike_symm (later e last' d inD named.symm)
  · exact later d last e inE named

end Definition

namespace Fragment

/-- Each statement that counts as one with no earlier one, in order. -/
def firsts : List Term → List Term
  | [] => []
  | t :: ts => t :: (firsts ts).filter fun u => !t.alike u

theorem firsts_append (ss ts : List Term) :
    firsts (ss ++ ts) = firsts ss ++ (firsts ts).filter fun u => !ss.any (·.alike u) := by
  induction ss with
  | nil => simp [firsts]
  | cons s ss ih =>
    rw [List.cons_append, firsts, ih, firsts, List.filter_append, List.filter_filter]
    simp

theorem firsts_subset (ss : List Term) : firsts ss ⊆ ss := by
  induction ss with
  | nil => simp [firsts]
  | cons s ss ih =>
    exact List.cons_subset_cons s (List.Subset.trans (List.filter_subset_self _) ih)

/-- Every statement counts as one with one that stays. -/
theorem exists_firsts_of_mem {ss : List Term} {t : Term} (member : t ∈ ss) :
    ∃ u ∈ firsts ss, u.alike t = true := by
  induction ss with
  | nil => cases member
  | cons s ss ih =>
    by_cases here : s.alike t = true
    · exact ⟨s, List.mem_cons_self, here⟩
    · rcases List.mem_cons.mp member with rfl | there
      · exact absurd (Term.alike_refl t) here
      · obtain ⟨u, stays, same⟩ := ih there
        refine ⟨u, List.mem_cons_of_mem _ (List.mem_filter.mpr ⟨stays, ?_⟩), same⟩
        rw [Bool.not_eq_true']
        exact Bool.eq_false_iff.mpr fun again => here (Term.alike_trans again same)

theorem any_firsts (ss : List Term) (t : Term) :
    (firsts ss).any (·.alike t) = ss.any (·.alike t) := by
  rw [Bool.eq_iff_iff, List.any_eq_true, List.any_eq_true]
  constructor
  · rintro ⟨u, member, same⟩
    exact ⟨u, firsts_subset ss member, same⟩
  · rintro ⟨u, member, same⟩
    obtain ⟨v, stays, first⟩ := exists_firsts_of_mem member
    exact ⟨v, stays, Term.alike_trans first same⟩

theorem distinct_eq_firsts (ss : List Term) : distinct ss = firsts ss := by
  induction ss using List.reverseRecOn with
  | nil => rfl
  | append_singleton ss t ih =>
    have last : (firsts [t]).filter (fun u => !ss.any (·.alike u)) =
        if ss.any (·.alike t) then [] else [t] := by
      rw [firsts, firsts, List.filter_nil, List.filter_cons, List.filter_nil]
      cases ss.any (·.alike t) <;> rfl
    rw [distinct_snoc, ih, any_firsts, firsts_append, last]
    cases ss.any (·.alike t) <;> simp

theorem pairwise_firsts (ss : List Term) : (firsts ss).Pairwise fun t u => t.alike u = false := by
  induction ss with
  | nil => exact .nil
  | cons s ss ih =>
    refine .cons (fun u member => ?_) (ih.filter _)
    simpa using (List.mem_filter.mp member).2

theorem firsts_eq_self {ss : List Term} (apart : ss.Pairwise fun t u => t.alike u = false) :
    firsts ss = ss := by
  induction ss with
  | nil => rfl
  | cons s ss ih =>
    obtain ⟨here, there⟩ := List.pairwise_cons.mp apart
    rw [firsts, ih there, List.filter_eq_self.mpr fun u member => by simp [here u member]]

/-- Combining parts that were combined before changes nothing. -/
theorem firsts_append_firsts (ss ts : List Term) :
    firsts (firsts ss ++ firsts ts) = firsts (ss ++ ts) := by
  rw [firsts_append, firsts_append, firsts_eq_self (pairwise_firsts ss),
    firsts_eq_self (pairwise_firsts ts)]
  simp only [any_firsts]

/-- A list of statements that holds those of some lists, each once, and starts as the first list. -/
structure Gathers (parts : List (List Term)) (statements : List Term) : Prop where
  once : statements.Pairwise fun t u => t.alike u = false
  given : ∀ t ∈ statements, ∃ part ∈ parts, t ∈ part
  held : ∀ part ∈ parts, ∀ t ∈ part, ∃ u ∈ statements, u.alike t = true
  starts : ∀ part ∈ parts.head?, firsts part <+: statements

theorem gathers_distinct (parts : List (List Term)) : Gathers parts (distinct parts.flatten) := by
  rw [distinct_eq_firsts]
  refine ⟨pairwise_firsts _, fun t member => ?_, fun part inside t member => ?_, ?_⟩
  · exact List.mem_flatten.mp (firsts_subset _ member)
  · exact exists_firsts_of_mem (List.mem_flatten.mpr ⟨part, inside, member⟩)
  · intro part first
    obtain ⟨rest, rfl⟩ := List.head?_eq_some_iff.mp first
    rw [List.flatten_cons, firsts_append]
    exact List.prefix_append ..

section Scope

variable {deep : Bool} {ss : List Term}

theorem mem_names_distinct {n : String} :
    n ∈ (among (distinct ss)).map name ↔ n ∈ (among ss).map name := by
  rw [distinct_eq_firsts]
  constructor
  · intro named
    obtain ⟨d, member, rfl⟩ := List.mem_map.mp named
    exact List.mem_map.mpr ⟨d, mem_among.mpr (firsts_subset ss (mem_among.mp member)), rfl⟩
  · intro named
    obtain ⟨d, member, rfl⟩ := List.mem_map.mp named
    obtain ⟨t, stays, same⟩ := exists_firsts_of_mem (mem_among.mp member)
    obtain ⟨e, rfl, same⟩ := Term.exists_definition_of_alike same
    exact List.mem_map.mpr ⟨e, mem_among.mpr stays, ((Definition.alike_iff e d).mp same).1⟩

/-- Definitions stay in sequence: where one is left out, an earlier one has its name. -/
theorem sequenced_distinct {needs : Definition → String → Prop}
    (sequenced : Sequenced name needs (among ss)) : Sequenced name needs (among (distinct ss)) := by
  induction ss using List.reverseRecOn with
  | nil => exact .nil
  | append_singleton ss t ih =>
    rw [among_append] at sequenced
    rw [distinct_snoc]
    split
    · exact ih sequenced.of_append
    · rw [among_append]
      rw [among_singleton] at sequenced ⊢
      generalize ofTerm? t = last at sequenced ⊢
      cases last with
      | none =>
        rw [Option.toList_none, List.append_nil]
        exact ih sequenced.of_append
      | some d =>
        -- A name that was defined before is still defined, if not by the same definition.
        refine (ih sequenced.of_append).snoc fun n need => ?_
        exact mem_names_distinct.mpr (sequenced.last_met n need)

/-- A fragment whose definitions refer to earlier ones only, whose value refers to its definitions,
and in which equal names have equal definitions. -/
structure WellScoped (deep : Bool) (f : Fragment) : Prop where
  earlier : Sequenced name (fun d n => n ∈ d.init.references deep) (among f.statements)
  bound : ∀ n ∈ f.value.references deep, n ∈ (among f.statements).map name
  agree : ∀ n, ¬ Conflict (among f.statements) n

theorem WellScoped.distinct {value : Term} (scope : WellScoped deep ⟨ss, value⟩) :
    WellScoped deep ⟨distinct ss, value⟩ := by
  refine ⟨sequenced_distinct scope.earlier, fun n refers => ?_, ?_⟩
  · exact mem_names_distinct.mpr (scope.bound n refers)
  · refine not_conflict_mono (fun d member => ?_) scope.agree
    rw [distinct_eq_firsts] at member
    exact mem_among.mpr (firsts_subset ss (mem_among.mp member))

/-- The statements of well-scoped fragments in turn are in sequence. -/
theorem sequenced_flatMap {fs : List Fragment} (each : ∀ f ∈ fs, WellScoped deep f) :
    Sequenced name (fun d n => n ∈ d.init.references deep) (among (fs.flatMap statements)) := by
  induction fs with
  | nil => exact .nil
  | cons f fs ih =>
    rw [List.flatMap_cons, among_append]
    exact (each f List.mem_cons_self).earlier.append
      (ih fun g member => each g (List.mem_cons_of_mem _ member))

/-- Naming a value by a new name. -/
theorem WellScoped.bind {f : Fragment} (scope : WellScoped deep f) {n : String}
    (fresh : n ∉ (among f.statements).map name) (type : String) :
    WellScoped deep (f.bind n type) := by
  unfold Fragment.bind
  split
  · exact scope
  · have statements : among (f.statements ++ [.define n type f.value]) =
        among f.statements ++ [⟨n, type, f.value⟩] := among_append ..
    refine ⟨?_, ?_, ?_⟩
    · rw [statements]
      exact scope.earlier.snoc scope.bound
    · simp [statements]
    · rw [statements]
      refine not_conflict_append scope.agree fun e last d member named => ?_
      obtain rfl := List.mem_singleton.mp last
      rcases List.mem_append.mp member with member | last
      · exact absurd (List.mem_map.mpr ⟨d, member, named.symm⟩) fresh
      · rw [List.mem_singleton.mp last]
        exact Definition.alike_refl _

/-- The statements of well-scoped fragments that agree on their names, in turn. -/
theorem wellScoped_flatMap {fs : List Fragment} (each : ∀ f ∈ fs, WellScoped deep f)
    (agree : ∀ n, ¬ Conflict (among (fs.flatMap statements)) n) {value : Term}
    (covered : ∀ n ∈ value.references deep, ∃ f ∈ fs, n ∈ (among f.statements).map name) :
    WellScoped deep ⟨fs.flatMap statements, value⟩ := by
  refine ⟨sequenced_flatMap each, fun n refers => ?_, agree⟩
  obtain ⟨f, inside, named⟩ := covered n refers
  obtain ⟨d, member, rfl⟩ := List.mem_map.mp named
  refine List.mem_map.mpr ⟨d, mem_among.mpr ?_, rfl⟩
  exact List.mem_flatMap.mpr ⟨f, inside, mem_among.mp member⟩

/-- The statements of well-scoped fragments that agree on their names, and more of them. -/
theorem wellScoped_append {ts : List Term} {value : Term}
    (earlier : Sequenced name (fun d n => n ∈ d.init.references deep) (among ss))
    (agree : ∀ n, ¬ Conflict (among ss) n)
    (later : Sequenced name (fun d n => n ∈ d.init.references deep ∧ n ∉ (among ss).map name)
      (among ts))
    (agrees : ∀ e ∈ among ts, ∀ d ∈ among (ss ++ ts), e.name = d.name → e.alike d = true)
    (covered : ∀ n ∈ value.references deep, n ∈ (among (ss ++ ts)).map name) :
    WellScoped deep ⟨ss ++ ts, value⟩ := by
  rw [among_append] at agrees
  refine ⟨?_, covered, ?_⟩
  · rw [among_append]
    exact earlier.append_beyond later
  · rw [among_append]
    exact not_conflict_append agree agrees

theorem combine_append (front back : List Fragment) (value inFront inBack : Term) :
    combine (front ++ back) value =
      (combine front inFront).combineWith (combine back inBack) [] value := by
  rw [combine, combineWith, combine, combine, List.flatMap_append, List.append_nil]
  simp only [distinct_eq_firsts, firsts_append_firsts]

/-- Combining well-scoped fragments that agree on their names, with a value over these names, gives
a well-scoped fragment with exactly their statements, each once, which starts as the first one. So
does combining two of them with more statements, whose definitions refer to those of the two and to
earlier ones of their own. Combining in groups makes no difference. Naming a value by a name that is
new to a fragment leaves it well scoped. -/
theorem combinations_wellScoped {fs : List Fragment} (each : ∀ f ∈ fs, WellScoped deep f)
    (agree : ∀ n, ¬ Conflict (among (fs.flatMap statements)) n) :
    (∀ value : Term, (∀ n ∈ value.references deep, ∃ f ∈ fs, n ∈ (among f.statements).map name) →
        WellScoped deep (combine fs value) ∧ (combine fs value).value = value ∧
          Gathers (fs.map statements) (combine fs value).statements) ∧
      (∀ f ∈ fs, ∀ g ∈ fs, ∀ (more : List Term) (value : Term),
        Sequenced name (fun d n => n ∈ d.init.references deep ∧
          n ∉ (among (f.statements ++ g.statements)).map name) (among more) →
        (∀ e ∈ among more, ∀ d ∈ among (f.statements ++ g.statements ++ more),
          e.name = d.name → e.alike d = true) →
        (∀ n ∈ value.references deep, n ∈ (among (f.statements ++ g.statements ++ more)).map name) →
        WellScoped deep (f.combineWith g more value) ∧ (f.combineWith g more value).value = value ∧
          Gathers [f.statements, g.statements, more] (f.combineWith g more value).statements) ∧
      (∀ (front back : List Fragment) (value inFront inBack : Term), combine (front ++ back) value =
        (combine front inFront).combineWith (combine back inBack) [] value) ∧
      ∀ f ∈ fs, ∀ n type, n ∉ (among f.statements).map name → WellScoped deep (f.bind n type) := by
  refine ⟨fun value covered => ⟨?_, rfl, ?_⟩,
    fun f inF g inG more value later agrees covered => ⟨?_, rfl, ?_⟩, combine_append,
    fun f inside n type fresh => (each f inside).bind fresh type⟩
  · exact (wellScoped_flatMap each agree covered).distinct
  · exact gathers_distinct (fs.map statements)
  · refine (wellScoped_append ?_ ?_ later agrees covered).distinct
    · rw [among_append]
      exact (each f inF).earlier.append (each g inG).earlier
    · refine not_conflict_mono (fun d member => ?_) agree
      rw [mem_among, List.mem_append] at member
      rw [mem_among, List.mem_flatMap]
      exact member.elim (fun left => ⟨f, inF, left⟩) fun right => ⟨g, inG, right⟩
  · have gathers := gathers_distinct [f.statements, g.statements, more]
    simpa [combineWith] using gathers

/-- Two fragments that share statements in different orders, with zeros of both signs. -/
def overlapping : List Fragment :=
  [⟨[.define "a" "float" (.number (.zero false)), .define "b" "float" (.number (.tenths 5)),
      .define "c" "vec2" (.vec .vec2 [.ref "a", .ref "a"])], .ref "c"⟩,
    ⟨[.define "b" "float" (.number (.tenths 5)), .define "a" "float" (.number (.zero true)),
      .define "d" "float" (.call "max" [.ref "a", .ref "b"])], .ref "d"⟩]

theorem combinations_wellScoped_overlapping :
    (∀ f ∈ overlapping, WellScoped true f) ∧
      WellScoped true (combine overlapping (.call "min" [.ref "c", .ref "d"])) ∧
      (among (combine overlapping (.call "min" [.ref "c", .ref "d"])).statements).map name =
        ["a", "b", "c", "d"] := by
  have each : ∀ f ∈ overlapping, WellScoped true f := by
    intro f member
    simp only [overlapping, List.mem_cons, List.not_mem_nil, or_false] at member
    rcases member with rfl | rfl <;>
      exact ⟨.of_places (by decide), by decide, not_conflict_iff.mpr (by decide +kernel)⟩
  have agree : ∀ n, ¬ Conflict (among (overlapping.flatMap statements)) n :=
    not_conflict_iff.mpr (by decide +kernel)
  refine ⟨each, ((combinations_wellScoped each agree).1 _ ?_).1, by decide +kernel⟩
  decide +kernel

end Scope

end Fragment

end ShaderFlow
