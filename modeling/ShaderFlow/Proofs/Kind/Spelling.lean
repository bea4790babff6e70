import ShaderFlow.Proofs.Kind.Cost
import ShaderFlow.Proofs.Program.Spelling

set_option autoImplicit false

namespace ShaderFlow

open Reading

namespace Term

theorem isPlain_group (t : Term) : t.group.isPlain = t.isPlain := by
  cases t with
  | raw ps => simp [Term.group, isPlainText, Reading.isPlain]
  | _ => rfl

end Term

namespace Fragment

/-- A fragment of plain text whose definitions have names with a property. -/
structure Spelled (P : String → Prop) (f : Fragment) : Prop where
  statements : ∀ t ∈ f.statements, t.Stated P
  value : f.value.isPlain = true

variable {P : String → Prop} {f : Fragment}

theorem spelled_ofValue {value : Term} (plain : value.isPlain = true) :
    Spelled P (.ofValue value) :=
  ⟨by simp [ofValue], plain⟩

theorem spelled_combine {fs : List Fragment} {value : Term} (each : ∀ f ∈ fs, Spelled P f)
    (plain : value.isPlain = true) : Spelled P (combine fs value) := by
  refine ⟨fun t member => ?_, plain⟩
  obtain ⟨f, inside, given⟩ := mem_combine member
  exact (each f inside).statements t given

theorem Spelled.bind (spelled : Spelled P f) {name type : String} (named : P name)
    (label : isLabel name = true) (known : type ∈ typeNames) : Spelled P (f.bind name type) := by
  unfold Fragment.bind
  split
  · exact spelled
  · refine ⟨fun t member => ?_, (isLabel_iff.mp label).2.1⟩
    rcases List.mem_append.mp member with given | last
    · exact spelled.statements t given
    · rw [List.mem_singleton.mp last]
      exact ⟨named, known, spelled.value⟩

theorem Spelled.withValue (spelled : Spelled P f) {value : Term} (plain : value.isPlain = true) :
    Spelled P (f.withValue value) := ⟨spelled.statements, plain⟩

end Fragment

namespace Kind

open Fragment

variable {P : String → Prop} {k : Kind} {seat : Seat} {data : Json} {inputs : Inputs}
  {produced : Outputs}

/-- All that arrives first on some input is spelled. -/
def SpelledInputs (P : String → Prop) (inputs : Inputs) : Prop :=
  ∀ key f, Inputs.first? inputs key = some f → Spelled P f

def SpelledOutputs (P : String → Prop) (produced : Outputs) : Prop :=
  ∀ entry ∈ produced, Spelled P entry.2

theorem spelledOutputs_single {key : String} {f : Fragment} (spelled : Spelled P f) :
    SpelledOutputs P [(key, f)] := by
  simpa [SpelledOutputs] using spelled

theorem SpelledInputs.firstOr (arrives : SpelledInputs P inputs) (key : String) {value : Term}
    (plain : value.isPlain = true) : Spelled P (Inputs.firstOr inputs key value) := by
  unfold Inputs.firstOr
  cases found : Inputs.first? inputs key with
  | none => exact spelled_ofValue plain
  | some f => exact arrives key f found

theorem SpelledInputs.colorOr (arrives : SpelledInputs P inputs) (key : String) :
    Spelled P (Inputs.firstOr inputs key .black) := arrives.firstOr key rfl

/-- The names that a worker may give of its own have a property and are labels. -/
def OwnNames (P : String → Prop) (label : String) : Prop :=
  ∀ word ∈ ["tex", "inv", "split"],
    P (word ++ "_" ++ label) ∧ isLabel (word ++ "_" ++ label) = true

section Sources

theorem isPlain_textureSample (x y : Binary64) : (textureSample x y).isPlain = true := rfl

theorem isPlain_blurSample (dx dy : Int) : (blurSample dx dy).isPlain = true := rfl

theorem isPlain_blurSum (r : Int) : (blurSum r).isPlain = true := by
  have divisor := isPlainText_number (isFinite_smallNumber
    ((offsets r).flatMap fun dy => (offsets r).map fun dx => blurSample dx dy).length)
  have samples : ∀ t ∈ ((offsets r).flatMap fun dy =>
      (offsets r).map fun dx => blurSample dx dy).intersperse (.text " + "), t.isPlain = true := by
    intro t member
    rcases mem_intersperse member with rfl | inside
    · rfl
    · obtain ⟨dy, -, inRow⟩ := List.mem_flatMap.mp inside
      obtain ⟨dx, -, rfl⟩ := List.mem_map.mp inRow
      exact isPlain_blurSample dx dy
  simp only [blurSum, Term.isPlain, Term.arePlain_eq, List.cons_append, List.all_cons,
    List.all_append, List.all_nil, List.all_eq_true.mpr samples, Bool.and_true]
  show (isPlainText "(" && isPlainText (") / " ++ _)) = true
  rw [isPlainText_append]
  exact divisor

theorem spelled_constantColor (worked : constantColor.worker seat data inputs = .ok produced) :
    SpelledOutputs P produced := by
  obtain ⟨value, _, worked⟩ := Outcome.bind_eq_ok_iff.mp worked
  obtain ⟨xs, _, same⟩ := Outcome.bind_eq_ok_iff.mp worked
  cases same
  exact spelledOutputs_single (spelled_ofValue (by simp))

theorem spelled_constantNumber (worked : constantNumber.worker seat data inputs = .ok produced) :
    SpelledOutputs P produced := by
  obtain ⟨value, _, worked⟩ := Outcome.bind_eq_ok_iff.mp worked
  obtain ⟨xs, _, worked⟩ := Outcome.bind_eq_ok_iff.mp worked
  split at worked
  · cases worked
    exact spelledOutputs_single (spelled_ofValue rfl)
  · cases worked

theorem spelled_webcam (own : OwnNames P seat.label)
    (worked : webcam.worker seat data inputs = .ok produced) : SpelledOutputs P produced := by
  obtain ⟨value, _, worked⟩ := Outcome.bind_eq_ok_iff.mp worked
  obtain ⟨xs, _, worked⟩ := Outcome.bind_eq_ok_iff.mp worked
  split at worked
  · cases worked
    obtain ⟨named, label⟩ := own "tex" (by simp)
    refine spelledOutputs_single ⟨fun t member => ?_, (isLabel_iff.mp label).2.1⟩
    rw [List.mem_singleton.mp member]
    exact ⟨named, by decide, isPlain_textureSample _ _⟩
  · cases worked

theorem spelled_boxBlur {data : Members} (valid : boxBlur.validate (.obj data) = .ok ())
    (worked : boxBlur.worker seat (.obj data) inputs = .ok produced) :
    SpelledOutputs P produced := by
  obtain ⟨r, -, -, read⟩ := exists_radius valid
  simp only [boxBlur, read, Outcome.ok_bind, radiusOf] at worked
  cases worked
  exact spelledOutputs_single (spelled_ofValue (isPlain_blurSum r))

end Sources

section Combining

theorem spelled_canvas (arrives : SpelledInputs P inputs)
    (worked : canvas.worker seat data inputs = .ok produced) : SpelledOutputs P produced := by
  cases worked
  have spelled := arrives.colorOr "color"
  refine spelledOutputs_single ⟨fun t member => ?_, rfl⟩
  rcases List.mem_append.mp member with given | last
  · exact spelled.statements t given
  · rw [List.mem_singleton.mp last]
    exact spelled.value

/-- Two values joined by a formula of plain text. -/
theorem spelled_joinPair {join : Term → Term → Term} (arrives : SpelledInputs P inputs)
    (plain : ∀ a b, a.isPlain = true → b.isPlain = true → (join a b).isPlain = true) :
    Spelled P (joinPair join inputs) := by
  unfold joinPair
  split
  · exact spelled_ofValue rfl
  · exact arrives _ _ ‹_›
  · exact arrives _ _ ‹_›
  · rename_i f g first second
    rw [combineWith_nil]
    have left := arrives _ _ first
    have right := arrives _ _ second
    exact spelled_combine (by simp [left, right]) (plain _ _ left.value right.value)

theorem spelled_mixColors (arrives : SpelledInputs P inputs)
    (worked : mixColors.worker seat data inputs = .ok produced) : SpelledOutputs P produced := by
  cases worked
  have first := arrives.colorOr "colorA"
  have second := arrives.colorOr "colorB"
  have factor : Spelled P (Inputs.firstOr inputs "factor" (.number (.tenths 5))) :=
    arrives.firstOr "factor" rfl
  refine spelledOutputs_single (spelled_combine (by simp [first, second, factor]) ?_)
  simp only [Term.isPlain, Term.arePlain_eq, List.all_cons, List.all_nil, first.value, second.value,
    factor.value, Bool.and_true]
  rfl

theorem spelled_invertColor (arrives : SpelledInputs P inputs) (own : OwnNames P seat.label)
    (worked : invertColor.worker seat data inputs = .ok produced) : SpelledOutputs P produced := by
  cases worked
  obtain ⟨named, label⟩ := own "inv" (by simp)
  have bound :
      Spelled P ((Inputs.firstOr inputs "color" .black).bind s!"inv_{seat.label}" "vec4") :=
    (arrives.colorOr "color").bind named label (by decide)
  refine spelledOutputs_single (bound.withValue ?_)
  simp only [Term.isPlain, Term.arePlain_eq, List.all_cons, List.all_nil, bound.value,
    Bool.and_true]
  rfl

theorem spelled_splitColor (arrives : SpelledInputs P inputs) (own : OwnNames P seat.label)
    (worked : splitColor.worker seat data inputs = .ok produced) : SpelledOutputs P produced := by
  cases worked
  obtain ⟨named, label⟩ := own "split" (by simp)
  have bound :
      Spelled P ((Inputs.firstOr inputs "color" .black).bind s!"split_{seat.label}" "vec4") :=
    (arrives.colorOr "color").bind named label (by decide)
  intro entry member
  obtain ⟨c, known, rfl⟩ := List.mem_map.mp member
  have letters : ∀ c ∈ channels, isPlainText c = true := by decide
  exact bound.withValue (by simp [bound.value, letters c known])

theorem spelled_joinColor (arrives : SpelledInputs P inputs)
    (worked : joinColor.worker seat data inputs = .ok produced) : SpelledOutputs P produced := by
  cases worked
  have each : ∀ f ∈ channels.map fun c => Inputs.firstOr inputs c (channelDefault c),
      Spelled P f := by
    intro f member
    obtain ⟨c, -, rfl⟩ := List.mem_map.mp member
    exact arrives.firstOr c rfl
  refine spelledOutputs_single (spelled_combine each ?_)
  rw [Term.isPlain, Term.arePlain_eq, List.all_eq_true]
  intro t member
  obtain ⟨f, inside, rfl⟩ := List.mem_map.mp member
  exact (each f inside).value

end Combining

/-- Whatever a worker of a builtin kind writes is spelled, if what arrives is and the names that it
may give have the property. -/
theorem spelled_builtin (builtin : k ∈ Registry.builtinKinds) {data : Members}
    (valid : k.validate (.obj data) = .ok ()) (arrives : SpelledInputs P inputs)
    (own : OwnNames P seat.label) (worked : k.worker seat (.obj data) inputs = .ok produced) :
    SpelledOutputs P produced := by
  simp only [Registry.builtinKinds, List.mem_cons, List.not_mem_nil, or_false] at builtin
  rcases builtin with rfl | rfl | rfl | rfl | rfl | rfl | rfl | rfl | rfl | rfl | rfl | rfl
  · exact spelled_canvas arrives worked
  · exact spelled_webcam own worked
  · cases worked
    exact spelledOutputs_single (spelled_ofValue rfl)
  · cases worked
    refine spelledOutputs_single (spelled_joinPair arrives fun a b first second => ?_)
    simp only [Term.isPlain, Term.arePlain_eq, List.all_cons, List.all_nil, first, second]
    rfl
  · exact spelled_constantColor worked
  · exact spelled_constantNumber worked
  · exact spelled_boxBlur valid worked
  · cases worked
    refine spelledOutputs_single (spelled_joinPair arrives fun a b first second => ?_)
    simp only [Term.isPlain, Term.arePlain_eq, Term.isPlain_group, List.all_cons,
      List.all_nil, first, second]
    rfl
  · exact spelled_mixColors arrives worked
  · exact spelled_invertColor arrives own worked
  · exact spelled_splitColor arrives own worked
  · exact spelled_joinColor arrives worked

end Kind

end ShaderFlow
