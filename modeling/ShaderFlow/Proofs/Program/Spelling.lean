import ShaderFlow.Proofs.Program.Generation
import ShaderFlow.Proofs.Reading.Declaration

set_option autoImplicit false

namespace ShaderFlow

open Reading Lowering Definition

namespace Term

mutual
/-- Whether all text in a term is plain. Of its shared variables, also that they are declared with a
type and named as samples. -/
def isPlain : Term → Bool
  | text s | ref s => isPlainText s
  | vec _ args | raw args => arePlain args
  | call func args => isPlainText func && arePlain args
  | swizzle t cs => isPlainText cs && t.isPlain
  | shared _ type init stem => typeNames.contains type && stem == defaultStem && init.isPlain
  | define _ _ t | commit t => t.isPlain
  | absent | number _ => true

def arePlain : List Term → Bool
  | [] => true
  | t :: ts => t.isPlain && arePlain ts
end

@[simp] theorem arePlain_eq (ts : List Term) : arePlain ts = ts.all isPlain := by
  induction ts with
  | nil => rfl
  | cons t ts ih => rw [arePlain, List.all_cons, ih]

attribute [simp] isPlain

/-- A statement that defines a variable of a known type, by a name with a property, or one that
commits a value. -/
def Stated (P : String → Prop) : Term → Prop
  | define name type init => P name ∧ type ∈ typeNames ∧ init.isPlain = true
  | commit value => value.isPlain = true
  | _ => False

section Lowered

variable {entries : List (Key × String)} {t u : Term} {P : String → Prop}

theorem all_of_forall₂ {ts us : List Term} (plain : ts.all isPlain = true)
    (related : List.Forall₂ (fun t u => t.isPlain = true → u.isPlain = true) ts us) :
    us.all isPlain = true := by
  induction related with
  | nil => rfl
  | cons here _ ih =>
    simp only [List.all_cons, Bool.and_eq_true] at plain ⊢
    exact ⟨here plain.1, ih plain.2⟩

/-- A plain term stays plain when its shared variables are named plainly. -/
theorem Replaces.isPlain (related : Replaces entries t u)
    (names : ∀ entry ∈ entries, isPlainText entry.2 = true) (plain : t.isPlain = true) :
    u.isPlain = true := by
  induction related using Replaces.induction with
  | absent | text | number | ref => exact plain
  | vec type args args' _ ih | raw args args' _ ih =>
    simp only [Term.isPlain, arePlain_eq] at plain ⊢
    exact all_of_forall₂ plain (ih.imp fun t u each => each.2)
  | call func args args' _ ih =>
    simp only [Term.isPlain, arePlain_eq, Bool.and_eq_true] at plain ⊢
    exact ⟨plain.1, all_of_forall₂ plain.2 (ih.imp fun t u each => each.2)⟩
  | swizzle components base base' _ ih =>
    simp only [Term.isPlain, Bool.and_eq_true] at plain ⊢
    exact ⟨plain.1, ih plain.2⟩
  | shared key type init stem name listed => exact names _ listed
  | define name type init init' _ ih => exact ih plain
  | commit value value' _ ih => exact ih plain

/-- The shared variables of a plain term are plain. -/
theorem isPlain_of_mem_allShared (plain : t.isPlain = true) (member : u ∈ t.allShared) :
    u.isPlain = true := by
  induction t using Term.induction with
  | absent | text | number | ref => simp at member
  | vec type args ih | raw args ih =>
    simp only [Term.isPlain, arePlain_eq, List.all_eq_true] at plain
    obtain ⟨t, inside, found⟩ : ∃ t ∈ args, u ∈ t.allShared := by simpa using member
    exact ih t inside (plain t inside) found
  | call func args ih =>
    simp only [Term.isPlain, arePlain_eq, Bool.and_eq_true, List.all_eq_true] at plain
    obtain ⟨t, inside, found⟩ : ∃ t ∈ args, u ∈ t.allShared := by simpa using member
    exact ih t inside (plain.2 t inside) found
  | swizzle base components ih =>
    simp only [Term.isPlain, Bool.and_eq_true] at plain
    exact ih plain.2 (by simpa using member)
  | shared key type init stem ih =>
    rcases List.mem_append.mp (show u ∈ [shared key type init stem] ++ init.allShared by
      simpa using member) with here | inner
    · rw [List.mem_singleton.mp here]
      exact plain
    · simp only [Term.isPlain, Bool.and_eq_true] at plain
      exact ih plain.2 inner
  | define name type init ih => exact ih plain (by simpa using member)
  | commit value ih => exact ih plain (by simpa using member)

/-- The names of the definitions that a lowering makes, and those that were there. -/
def OrSample (P : String → Prop) (n : String) : Prop :=
  P n ∨ ∃ index, n = issuedName defaultStem index

theorem Stated.isPlain (stated : t.Stated P) : t.isPlain = true := by
  cases t with
  | define name type init => exact stated.2.2
  | commit value => exact stated
  | _ => exact stated.elim

theorem Stated.mono {Q : String → Prop} (stated : t.Stated P) (imp : ∀ n, P n → Q n) :
    t.Stated Q := by
  cases t with
  | define name type init => exact ⟨imp _ stated.1, stated.2⟩
  | commit value => exact stated
  | _ => exact stated.elim

theorem Stated.replaces (stated : t.Stated P) (related : Replaces entries t u)
    (names : ∀ entry ∈ entries, isPlainText entry.2 = true) : u.Stated P := by
  cases related with
  | define name type inner => exact ⟨stated.1, stated.2.1, inner.isPlain names stated.2.2⟩
  | commit inner => exact inner.isPlain names stated
  | _ => exact stated.elim

end Lowered

section Emission

variable {target : Target} {t : Term} {s : String}

theorem isPlainText_functionName (target : Target) {func : String}
    (plain : isPlainText func = true) :
    isPlainText (target.functionName func) = true := by
  unfold Target.functionName
  split
  · rfl
  · exact plain

theorem isPlainText_of_mapM {f : Term → Except Error String} {ts : List Term} {ss : List String}
    (ran : ts.mapM f = .ok ss) (each : ∀ t ∈ ts, ∀ s, f t = .ok s → isPlainText s = true) :
    ∀ s ∈ ss, isPlainText s = true := by
  intro s member
  obtain ⟨t, inside, here⟩ := exists_of_forall₂ (Outcome.mapM_eq_ok_iff.mp ran) member
  exact each t inside s here

theorem isPlainText_call {func : String} {ss : List String} (plain : isPlainText func = true)
    (inner : ∀ s ∈ ss, isPlainText s = true) :
    isPlainText (func ++ "(" ++ ", ".intercalate ss ++ ")") = true := by
  have mark : isPlainText ", " = true := rfl
  simp only [isPlainText_append, plain, isPlainText_intercalate mark inner]
  rfl

/-- The text of a plain term is plain. -/
theorem isPlainText_emit (plain : t.isPlain = true) (emitted : t.emit target = .ok s) :
    isPlainText s = true := by
  induction t using Term.induction generalizing s with
  | number x =>
    simp only [emit, Binary64.literal] at emitted
    split at emitted
    · rename_i finite
      cases emitted
      exact isPlainText_number finite
    · cases emitted
  | ref name =>
    cases emitted
    exact plain
  | vec type args ih =>
    simp only [Term.isPlain, arePlain_eq, List.all_eq_true] at plain
    rw [emit, emitAll_eq_mapM] at emitted
    obtain ⟨ss, ran, same⟩ := Outcome.bind_eq_ok_iff.mp emitted
    cases same
    have outer : isPlainText type.name = true := by cases type <;> rfl
    exact isPlainText_call outer
      (isPlainText_of_mapM ran fun t member s => ih t member (plain t member))
  | call func args ih =>
    simp only [Term.isPlain, arePlain_eq, Bool.and_eq_true, List.all_eq_true] at plain
    rw [emit, emitAll_eq_mapM] at emitted
    obtain ⟨ss, ran, same⟩ := Outcome.bind_eq_ok_iff.mp emitted
    cases same
    exact isPlainText_call (isPlainText_functionName target plain.1)
      (isPlainText_of_mapM ran fun t member s => ih t member (plain.2 t member))
  | swizzle base components ih =>
    simp only [Term.isPlain, Bool.and_eq_true] at plain
    obtain ⟨inner, ran, same⟩ := Outcome.bind_eq_ok_iff.mp emitted
    cases same
    have inside := ih plain.2 ran
    have grouped : isPlainText (if base.isAtomic then inner else "(" ++ inner ++ ")") = true := by
      split
      · exact inside
      · simp only [isPlainText_append, inside, Bool.and_true]
        rfl
    simp only [isPlainText_append, grouped, plain.1, Bool.and_true]
    rfl
  | raw parts ih =>
    simp only [Term.isPlain, arePlain_eq, List.all_eq_true] at plain
    rw [emit, emitParts_eq_mapM] at emitted
    obtain ⟨ss, ran, same⟩ := Outcome.bind_eq_ok_iff.mp emitted
    cases same
    refine isPlainText_join (isPlainText_of_mapM ran fun t member s written => ?_)
    cases t with
    | text s' =>
      cases written
      exact plain _ member
    | _ => exact ih _ member (plain _ member) written
  | absent | text | shared | define | commit => cases emitted

/-- The line of a statement is plain, and declares the name if the statement defines one. -/
theorem Stated.line {P : String → Prop} {line : String} (labels : ∀ n, P n → isLabel n = true)
    (stated : t.Stated P) (emitted : t.emitStatement target 1 = .ok line) :
    isPlainText line = true ∧ declared? line.toList = (Definition.ofTerm? t).map name := by
  cases t with
  | define name type init =>
    obtain ⟨named, known, plain⟩ := stated
    obtain ⟨text, ran, same⟩ := Outcome.bind_eq_ok_iff.mp emitted
    cases same
    have label := labels name named
    have types : ∀ type ∈ typeNames, isPlainText type = true := by decide
    constructor
    · simp only [isPlainText_append, types type known, (isLabel_iff.mp label).2.1,
        isPlainText_emit plain ran, Bool.and_true]
      rfl
    · have line : (indentation 1 ++ type ++ " " ++ name ++ " = " ++ text ++ ";").toList =
          (indentation 1 ++ type ++ " " ++ name ++ " ").toList ++ ("= " ++ text ++ ";").toList := by
        simp
      rw [line]
      exact declared?_definition known label _
  | commit value =>
    obtain ⟨text, ran, same⟩ := Outcome.bind_eq_ok_iff.mp emitted
    cases same
    constructor
    · have output : isPlainText target.outputName = true := by cases target <;> rfl
      simp only [isPlainText_append, output, isPlainText_emit stated ran, Bool.and_true]
      rfl
    · have line : (indentation 1 ++ target.outputName ++ " = " ++ text ++ ";").toList =
          (indentation 1 ++ target.outputName ++ " ").toList ++ ("= " ++ text ++ ";").toList := by
        simp
      rw [line]
      exact declared?_commit target _
  | _ => exact stated.elim

end Emission

end Term

theorem isWord_sample (index : Nat) : isWord (issuedName Term.defaultStem index).toList = true :=
  @isWord_join "sample" _ rfl fun _ => isWordPart_of_mem_natRepr

theorem isLabel_of_isWord {s : String} (word : isWord s.toList = true) : isLabel s = true := by
  refine isLabel_of_chars (fun none => ?_) fun c member => .inl (isWordPart_of_isWord word c member)
  rw [none] at word
  cases word

/-- Plain statements are lowered to plain statements. -/
theorem Lowering.Lowered.stated {statements lowered rest : List Term} {issues : List Issue}
    {P : String → Prop} (lowers : Lowered statements lowered issues rest)
    (stated : ∀ t ∈ statements, t.Stated P) : ∀ t ∈ lowered, t.Stated (Term.OrSample P) := by
  have origin : ∀ i ∈ issues, i.type ∈ typeNames ∧ i.stem = Term.defaultStem ∧
      i.init.isPlain = true := by
    intro i member
    obtain ⟨t, inside, found⟩ := List.mem_flatMap.mp (lowers.origin i member)
    have plain := Term.isPlain_of_mem_allShared (stated t inside).isPlain found
    simpa [Issue.origin, and_assoc] using plain
  have names : ∀ entry ∈ (issues.map Issue.entry).reverse, isPlainText entry.2 = true := by
    intro entry member
    obtain ⟨i, inside, rfl⟩ := List.mem_map.mp (List.mem_reverse.mp member)
    rw [Issue.entry, Issue.name, (origin i inside).2.1]
    exact (isLabel_iff.mp (isLabel_of_isWord (isWord_sample i.index))).2.1
  intro t member
  rw [lowers.split] at member
  rcases List.mem_append.mp member with issued | given
  · obtain ⟨i, inside, rfl⟩ := List.mem_map.mp issued
    obtain ⟨known, stem, plain⟩ := origin i inside
    have replaced := Issue.replaces_of_inOrder lowers.inOrder inside
    rw [List.append_nil] at replaced
    refine ⟨.inr ⟨i.index, ?_⟩, known, replaced.isPlain names plain⟩
    rw [Issue.name, stem]
  · obtain ⟨u, inside, related⟩ := exists_of_forall₂ lowers.replaced given
    exact ((stated u inside).replaces related names).mono fun _ => .inl

/-- Lines declare what their statements define. -/
theorem Term.filterMap_declared? {P : String → Prop} (labels : ∀ n, P n → isLabel n = true)
    {target : Target} {ts : List Term} {lines : List String} (stated : ∀ t ∈ ts, t.Stated P)
    (related : List.Forall₂ (fun t line => t.emitStatement target 1 = .ok line) ts lines) :
    lines.filterMap (fun line => declared? line.toList) = (among ts).map name := by
  induction related with
  | nil => rfl
  | @cons t line ts lines here _ ih =>
    have declares := ((stated t (by simp)).line labels here).2
    have rest := ih fun u member => stated u (List.mem_cons_of_mem t member)
    have split : among (t :: ts) = (ofTerm? t).toList ++ among ts := by
      rw [among, List.filterMap_cons, ← among]
      cases ofTerm? t <;> rfl
    rw [List.filterMap_cons, declares, rest, split]
    cases ofTerm? t <;> rfl

/-- The lines of a program of plain statements are plain. They declare its definitions, whose names
were given or are those of samples. -/
theorem Program.lines {statements : List Term} {p : Program} {P : String → Prop}
    (labels : ∀ n, P n → isLabel n = true) (stated : ∀ t ∈ statements, t.Stated P)
    (made : ofStatements statements = .ok p) {target : Target} {lines : List String}
    (body : p.body target = .ok lines) :
    (∀ line ∈ lines, isPlainText line = true) ∧
      lines.filterMap (fun line => declared? line.toList) = p.definitions.map name ∧
      ∀ d ∈ p.definitions, Term.OrSample P d.name := by
  obtain ⟨lowered, ran, built⟩ := built_of_ofStatements made
  obtain ⟨issues, rest, lowers⟩ := lowered_of_lowerProgram ran
  have labels : ∀ n, Term.OrSample P n → isLabel n = true := by
    rintro n (given | ⟨index, rfl⟩)
    · exact labels n given
    · exact isLabel_of_isWord (isWord_sample index)
  have definitions : ∀ d ∈ p.definitions, d.toTerm.Stated (Term.OrSample P) := fun d member =>
    lowers.stated stated _ (mem_among.mp (built.resolves.subset member))
  have commit : p.commit.Stated (Term.OrSample P) := lowers.stated stated _ (mem_of_only built.only)
  have each : ∀ t ∈ p.definitions.map toTerm ++ [p.commit], t.Stated (Term.OrSample P) := by
    intro t member
    rcases List.mem_append.mp member with inside | last
    · obtain ⟨d, listed, rfl⟩ := List.mem_map.mp inside
      exact definitions d listed
    · rw [List.mem_singleton.mp last]
      exact commit
  rw [body_eq_mapM] at body
  have related := Outcome.mapM_eq_ok_iff.mp body
  refine ⟨fun line member => ?_, ?_, fun d member => (definitions d member).1⟩
  · obtain ⟨t, inside, emitted⟩ := exists_of_forall₂ related member
    exact ((each t inside).line labels emitted).1
  · have isCommit : isCommit p.commit = true := by
      have member : p.commit ∈ lowered.filter isCommit := by simp [built.only]
      exact (List.mem_filter.mp member).2
    have undefined : ofTerm? p.commit = none := by
      cases shape : p.commit <;> simp [shape, Program.isCommit, ofTerm?] at isCommit ⊢
    have same : (ofTerm? ∘ toTerm) = some := rfl
    rw [Term.filterMap_declared? labels each related, among, List.filterMap_append,
      List.filterMap_map, same, List.filterMap_some, List.filterMap_cons_none undefined,
      List.filterMap_nil, List.append_nil]

end ShaderFlow
