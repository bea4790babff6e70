import ShaderFlow.Kind.Registry
import ShaderFlow.Proofs.Fragment.Scope
import ShaderFlow.Proofs.Text.Label

set_option autoImplicit false

/-
The expression that each kind stands for, given those on its inputs, and that its worker builds a
fragment with this meaning whatever inputs are connected. Workers name what they use twice, and no
two nodes give one name.
-/

namespace ShaderFlow

open Definition Fragment

namespace Label

/-- The names that the worker of a node gives. -/
inductive Own (id : Int) : String → Prop
  | mk (word : String) (known : word ∈ ["tex", "inv", "split"]) : Own id (word ++ "_" ++ id.repr)

/-- The name of a node's output that several links read. -/
def outputName (id : Int) (key : String) : String := "out" ++ "_" ++ (id.repr ++ "_" ++ key)

/-- The names that an evaluation gives on account of a node. -/
inductive Issued (id : Int) : String → Prop
  | own {n : String} (own : Own id n) : Issued id n
  | output (key : String) : Issued id (outputName id key)

theorem outputName_inj {id id' : Int} {key key' : String}
    (same : outputName id key = outputName id' key') : id = id' ∧ key = key' := by
  have rest := (join_inj_left (by decide) (by decide) same).2
  obtain ⟨ids, keys⟩ :=
    join_inj_left (underscore_not_mem_intRepr id) (underscore_not_mem_intRepr id')
    rest
  exact ⟨Int.repr_injective ids, keys⟩

theorem own_word_plain {word : String} (known : word ∈ ["tex", "inv", "split"]) :
    '_' ∉ word.toList := by
  simp only [List.mem_cons, List.not_mem_nil, or_false] at known
  rcases known with rfl | rfl | rfl <;> decide

theorem Own.ne_outputName {id id' : Int} {n : String} (own : Own id n) (key : String) :
    n ≠ outputName id' key := by
  obtain ⟨word, known⟩ := own
  intro same
  obtain ⟨rfl, -⟩ := join_inj_left (own_word_plain known) (by decide) same
  simp at known

/-- No name is given on account of two nodes. -/
theorem Issued.id_eq {id id' : Int} {n : String} (first : Issued id n) (second : Issued id' n) :
    id = id' := by
  cases first with
  | own first =>
    cases second with
    | own second =>
      obtain ⟨word, known⟩ := first
      generalize whole : word ++ "_" ++ id.repr = n at second
      obtain ⟨word', known'⟩ := second
      exact Int.repr_injective
        (join_inj_left (own_word_plain known) (own_word_plain known') whole).2
    | output key => exact absurd rfl (first.ne_outputName key)
  | output key =>
    generalize whole : outputName id key = n at second
    cases second with
    | own second => exact absurd whole.symm (second.ne_outputName key)
    | output key' => exact (outputName_inj whole).1

end Label

namespace Kind

section Formulas

/-- The numbers that a node's data holds in a field. -/
def numbersIn (data : Json) (defaults : Members) (field : String) (count : Nat) : List Binary64 :=
  match do numbers field count (← dataValue data defaults field) with
  | .ok xs => xs
  | .error _ => []

def webcamFormula (data : Json) : Term :=
  match numbersIn data offsetDefaults "offset" 2 with
  | [x, y] => textureSample x y
  | _ => .absent

def numberFormula (data : Json) : Term :=
  match do numberOf (← dataValue data zeroDefaults "value") with
  | .ok [x] => .number x
  | _ => .absent

/-- The average over a square of offsets, with all samples in place. -/
def blurFormula (data : Json) : Term :=
  match do radiusOf (← dataValue data radiusDefaults "radius") with
  | .ok r =>
    let samples := (offsets r).flatMap fun dy =>
      (offsets r).map fun dx => textureSample (smallNumber dx) (smallNumber dy)
    let divisor := (smallNumber samples.length).text
    .raw (.text "(" :: samples.intersperse (.text " + ") ++ [.text s!") / {divisor}"])
  | .error _ => .absent

/-- Two colors joined; a single one is the result itself. -/
def pairFormula (join : Term → Term → Term) : Option Term → Option Term → Term
  | none, none => .black
  | some a, none | none, some a => a
  | some a, some b => join a b

/-- What an output of a node stands for, by the kind of the node, its data, and what stands on the
inputs that are connected. -/
def formula (kind : String) (data : Json) (operand : String → Option Term) (output : String) :
    Term :=
  let color := (operand "color").getD .black
  match kind with
  | "Canvas" => color
  | "Webcam" => webcamFormula data
  | "Cool Color" => .color (.tenths 0) (.tenths 7) (.tenths 7) (.tenths 10)
  | "Blend Colors" =>
    pairFormula (fun a b => .raw [.text "(", a, .text " + ", b, .text ") / 2.0"])
      (operand "colorA") (operand "colorB")
  | "Color" => .vec .vec4 ((numbersIn data whiteDefaults "color" 4).map .number)
  | "Number" => numberFormula data
  | "Box Blur" => blurFormula data
  | "Multiply Colors" =>
    pairFormula (fun a b => .raw [a.group, .text " * ", b.group])
      (operand "colorA") (operand "colorB")
  | "Mix Colors" =>
    .call "mix" [(operand "colorA").getD .black, (operand "colorB").getD .black,
      (operand "factor").getD (.number (.tenths 5))]
  | "Invert Color" =>
    .vec .vec4 [.raw [.text "vec3(1.0) - ", .swizzle color "rgb"], .swizzle color "a"]
  | "Split Color" => .swizzle color output
  | "Join Color" => .vec .vec4 (channels.map fun c => (operand c).getD (channelDefault c))
  | _ => .absent

end Formulas

/-- What arrives on the inputs means the operands. -/
def Arrives (c : List Definition) (inputs : Inputs) (operand : String → Option Term) : Prop :=
  ∀ key, Option.Rel (Carries c) (Inputs.first? inputs key) (operand key)

/-- The outputs of a node mean what they should, and a sink has a finished shader. -/
structure Delivers (c : List Definition) (k : Kind) (produced : Outputs)
    (meaning : String → Term) : Prop where
  outputs : ∀ s ∈ k.outputs, ∃ f, produced.lookup s.key = some f ∧ Carries c f (meaning s.key)
  result : k.isSink = true → ∃ f, produced.lookup resultKey = some (f.complete [.commit f.value]) ∧
    Carries c f (meaning resultKey)

/-- The worker of a kind succeeds for a node and delivers what the formula of the kind says. -/
def Works (c : List Definition) (id : Int) (k : Kind) (data : Json) (inputs : Inputs)
    (operand : String → Option Term) : Prop :=
  ∀ turn, ∃ produced c', k.worker ⟨id.repr, turn⟩ data inputs = .ok produced ∧ Catalog c' ∧
    Grows (Label.Own id) c c' ∧ Delivers c' k produced (formula k.name data operand)

variable {c : List Definition} {id : Int} {inputs : Inputs} {operand : String → Option Term}

theorem Delivers.grow {k : Kind} {produced : Outputs} {meaning : String → Term}
    {P : String → Prop} {c' : List Definition} (delivers : Delivers c k produced meaning)
    (catalog : Catalog c') (grows : Grows P c c') : Delivers c' k produced meaning := by
  refine ⟨fun s member => ?_, fun isSink => ?_⟩
  · obtain ⟨f, found, carries⟩ := delivers.outputs s member
    exact ⟨f, found, carries.grow catalog grows⟩
  · obtain ⟨f, found, carries⟩ := delivers.result isSink
    exact ⟨f, found, carries.grow catalog grows⟩

theorem builtin_sockets : ∀ k ∈ Registry.builtinKinds,
    (k.outputs.map Socket.key).Nodup ∧ (k.isSink = true → k.outputs = []) := by
  simp only [Registry.builtinKinds, List.forall_mem_cons, List.not_mem_nil, false_implies,
    implies_true, and_true]
  decide

section Values

theorem isFinite_tenths : ∀ n ∈ [0, 5, 7, 10], (Binary64.tenths n).isFinite = true := by decide

theorem regular_color {r g b a : Nat} (known : ∀ n ∈ [r, g, b, a], n ∈ [0, 5, 7, 10]) :
    (Term.color (.tenths r) (.tenths g) (.tenths b) (.tenths a)).Regular := by
  have finite := fun n member => isFinite_tenths n (known n member)
  refine Term.regular_vec ?_
  simpa using finite

theorem regular_black : Term.black.Regular := regular_color (by decide)

theorem regular_textureSample {x y : Binary64} (finiteX : x.isFinite = true)
    (finiteY : y.isFinite = true) : (textureSample x y).Regular := by
  have side : ∀ z : Binary64, z.isFinite = true → ∀ s, (Term.raw [.number z, .text s]).Regular :=
    fun z finite s => Term.regular_raw (by simp [finite, Term.isText])
  refine Term.regular_call fun t member => ?_
  simp only [List.mem_cons, List.not_mem_nil, or_false] at member
  rcases member with rfl | rfl
  · exact Term.regular_raw (by simp [Term.isText])
  · refine Term.regular_raw fun p inside => ?_
    simp only [List.mem_cons, List.not_mem_nil, or_false] at inside
    rcases inside with rfl | rfl
    · exact .inl rfl
    · refine .inr (Term.regular_vec fun u among => ?_)
      simp only [List.mem_cons, List.not_mem_nil, or_false] at among
      rcases among with rfl | rfl
      · exact side x finiteX _
      · exact side y finiteY _

@[simp] theorem names_textureSample (x y : Binary64) : (textureSample x y).names = [] := by
  simp [textureSample]

@[simp] theorem outerShared_textureSample (x y : Binary64) :
    (textureSample x y).outerShared = [] := by
  simp [textureSample]

theorem isFinite_smallNumber (n : Int) : (smallNumber n).isFinite = true := by
  unfold smallNumber Binary64.ofInt?
  dsimp only
  split
  · assumption
  · rfl

/-- The key of the shared variable for an offset. -/
def sampleKey (dx dy : Int) : Key := .tuple [.text "texture2D", .number dx, .number dy]

/-- Offsets with one key are one. -/
theorem sampleKey_inj {dx dy dx' dy' : Int} (same : sampleKey dx dy = sampleKey dx' dy') :
    dx = dx' ∧ dy = dy' := by
  simpa [sampleKey] using same

theorem regular_blurSample (dx dy : Int) : (blurSample dx dy).Regular := by
  obtain ⟨shape, finite, samples⟩ :=
    regular_textureSample (isFinite_smallNumber dx) (isFinite_smallNumber dy)
  refine ⟨by simpa [blurSample] using shape, ?_, ?_⟩
  · intro x member
    exact finite x (by simpa [blurSample] using member)
  · intro u member
    simp only [blurSample, Term.gather, Term.sharedLeaf, if_true, List.mem_append,
      List.mem_singleton] at member
    rcases member with rfl | member
    · exact ⟨dx, dy, rfl⟩
    · exact samples u member

end Values

section Reading

theorem dataValue_obj (data : Members) (defaults : Members) (key : String) :
    dataValue (.obj data) defaults key =
      .ok ((Members.get? data key).getD ((Members.get? defaults key).getD .null)) := by
  cases found : Members.get? data key with
  | none => simp [dataValue, Json.has, found]; rfl
  | some v => simp [dataValue, Json.has, Json.member, found]

theorem numbers_eq_ok {field : String} {count : Nat} {value : Json} {xs : List Binary64}
    (success : numbers field count value = .ok xs) :
    xs.length = count ∧ ∀ x ∈ xs, x.isFinite = true := by
  unfold numbers at success
  split at success
  · split at success
    · rename_i items shape
      split at success
      · cases success
      · rename_i ys read
        split at success
        · rename_i finite
          cases success
          have length := (Outcome.mapM_eq_ok_iff.mp read).length_eq
          exact ⟨by omega, by simpa using finite⟩
        · cases success
    · cases success
  · cases success

/-- Data that passed the check holds numbers, given or by default. -/
theorem exists_numbers {field : String} {count : Nat} {data : Members} (defaults : Members)
    (valid : checkNumbers field count (.obj data) = .ok ())
    (standard : ∃ xs, numbers field count ((Members.get? defaults field).getD .null) = .ok xs) :
    ∃ xs, numbers field count
      ((Members.get? data field).getD ((Members.get? defaults field).getD .null)) = .ok xs := by
  cases found : Members.get? data field with
  | none => exact standard
  | some v =>
    simp only [checkNumbers, Json.has, Json.member, found, Option.isSome_some, Outcome.ok_bind,
      if_true] at valid
    obtain ⟨xs, read, _⟩ := Outcome.map_eq_ok_iff.mp valid
    exact ⟨xs, read⟩

/-- Data that passed the check holds a radius in range, given or by default. -/
theorem exists_radius {data : Members} (valid : checkRadius (.obj data) = .ok ()) :
    ∃ r : Int, 0 ≤ r ∧ r ≤ maxRadius ∧
      dataValue (.obj data) radiusDefaults "radius" = .ok (.int r) := by
  have value_eq : (Members.get? data "radius").getD
      ((Members.get? radiusDefaults "radius").getD .null) =
        (Members.get? data "radius").getD (.int 1) := rfl
  rw [dataValue_obj, value_eq]
  simp only [checkRadius] at valid
  split at valid
  · rename_i r same
    split at valid
    · rename_i inRange
      exact ⟨r, inRange.1, inRange.2, by rw [same]⟩
    · cases valid
  · cases valid

end Reading

section Sources

theorem delivers_single {k : Kind} {key : String} {f : Fragment} {meaning : String → Term}
    (sockets : ∀ s ∈ k.outputs, s.key = key) (noSink : k.isSink = false)
    (carries : Carries c f (meaning key)) : Delivers c k [(key, f)] meaning where
  outputs := fun s member => ⟨f, by simp [sockets s member], by rwa [sockets s member]⟩
  result := by simp [noSink]

/-- A term that names nothing stands for itself. -/
theorem carries_ofValue {value : Term} (c : List Definition) (regular : value.Regular)
    (unnamed : value.names = []) (unshared : value.outerShared = []) :
    Carries c (.ofValue value) value :=
  ⟨.ofValue c regular unnamed, Term.inlineWith_eq_ungroup unnamed unshared⟩

theorem works_coolColor (catalog : Catalog c) (data : Json) :
    Works c id coolColor data inputs operand := by
  intro turn
  refine ⟨_, c, rfl, catalog, .refl _ c, delivers_single (by simp [coolColor, Socket.color]) rfl ?_⟩
  exact carries_ofValue c (regular_color (by decide)) (by simp [Term.color]) (by simp [Term.color])

theorem works_constantColor (catalog : Catalog c) {data : Members}
    (valid : constantColor.validate (.obj data) = .ok ()) :
    Works c id constantColor (.obj data) inputs operand := by
  intro turn
  obtain ⟨xs, read⟩ := exists_numbers whiteDefaults valid ⟨_, rfl⟩
  have formula_eq : formula constantColor.name (.obj data) operand "color" =
      .vec .vec4 (xs.map .number) := by
    simp only [formula, constantColor, numbersIn, dataValue_obj, Outcome.ok_bind, read]
  refine ⟨[("color", .ofValue (.vec .vec4 (xs.map .number)))], c, ?_, catalog, .refl _ c,
    delivers_single (by simp [constantColor, Socket.color]) rfl ?_⟩
  · simp only [constantColor, dataValue_obj, Outcome.ok_bind, read]
    rfl
  · rw [formula_eq]
    refine carries_ofValue c (Term.regular_vec ?_) (by simp) (by simp)
    intro t member
    obtain ⟨x, inside, rfl⟩ := List.mem_map.mp member
    exact (Term.regular_number x).mpr ((numbers_eq_ok read).2 x inside)

theorem works_constantNumber (catalog : Catalog c) {data : Members}
    (valid : constantNumber.validate (.obj data) = .ok ()) :
    Works c id constantNumber (.obj data) inputs operand := by
  intro turn
  obtain ⟨x, finite, read⟩ : ∃ x : Binary64, x.isFinite = true ∧ numberOf
      ((Members.get? data "value").getD ((Members.get? zeroDefaults "value").getD .null)) =
        .ok [x] := by
    obtain ⟨xs, read⟩ : ∃ xs, numberOf
        ((Members.get? data "value").getD ((Members.get? zeroDefaults "value").getD .null)) =
          .ok xs := by
      cases found : Members.get? data "value" with
      | none => exact ⟨_, rfl⟩
      | some v =>
        simp only [constantNumber, Json.has, Json.member, found, Option.isSome_some,
          Outcome.ok_bind, if_true] at valid
        obtain ⟨xs, read, _⟩ := Outcome.map_eq_ok_iff.mp valid
        exact ⟨xs, read⟩
    obtain ⟨length, finite⟩ := numbers_eq_ok read
    obtain ⟨x, rfl⟩ := List.length_eq_one_iff.mp length
    exact ⟨x, finite x (by simp), read⟩
  have formula_eq : formula constantNumber.name (.obj data) operand "value" = .number x := by
    simp only [formula, constantNumber, numberFormula, dataValue_obj, Outcome.ok_bind, read]
  refine ⟨[("value", .ofValue (.number x))], c, ?_, catalog, .refl _ c,
    delivers_single (by simp [constantNumber, Socket.scalar]) rfl ?_⟩
  · simp only [constantNumber, dataValue_obj, Outcome.ok_bind, read]
    rfl
  · rw [formula_eq]
    exact carries_ofValue c ((Term.regular_number x).mpr finite) (by simp) (by simp)

theorem works_webcam (catalog : Catalog c) (fresh : ∀ n, Label.Own id n → n ∉ c.map Definition.name)
    {data : Members} (valid : webcam.validate (.obj data) = .ok ()) :
    Works c id webcam (.obj data) inputs operand := by
  intro turn
  obtain ⟨xs, read⟩ := exists_numbers offsetDefaults valid ⟨_, rfl⟩
  obtain ⟨length, finite⟩ := numbers_eq_ok read
  obtain ⟨x, y, rfl⟩ := List.length_eq_two.mp length
  have own : Label.Own id ("tex" ++ "_" ++ id.repr) := .mk "tex" (by simp)
  have regular : (textureSample x y).Regular :=
    regular_textureSample (finite x (by simp)) (finite y (by simp))
  have catalog' : Catalog (c ++ [⟨"tex" ++ "_" ++ id.repr, "vec4", textureSample x y⟩]) :=
    catalog.snoc (fresh _ own) regular (by simp)
  have formula_eq : formula webcam.name (.obj data) operand "color" = textureSample x y := by
    simp only [formula, webcam, webcamFormula, numbersIn, dataValue_obj, Outcome.ok_bind, read]
  refine ⟨_, _, ?_, catalog', ⟨_, rfl, by simpa using own⟩,
    @delivers_single _ webcam "color" ⟨[.define ("tex" ++ "_" ++ id.repr) "vec4"
      (textureSample x y)], .ref ("tex" ++ "_" ++ id.repr)⟩ _
      (by simp [webcam, Socket.color]) rfl ?_⟩
  · simp only [webcam, dataValue_obj, Outcome.ok_bind, read]
    rfl
  · rw [formula_eq]
    refine ⟨@Scoped.of_definitions _ [⟨"tex" ++ "_" ++ id.repr, "vec4", textureSample x y⟩] _
      (by simp) (by simp) (Sequenced.nil.snoc (by simp)) (by simp) (by simp), ?_⟩
    rw [Term.inlineWith_ref, environment_snoc, Function.update_self]
    exact Term.inlineWith_eq_ungroup (by simp) (by simp)

theorem map_intersperse {α β : Type} (f : α → β) (sep : α) (xs : List α) :
    (xs.intersperse sep).map f = (xs.map f).intersperse (f sep) := by
  induction xs with
  | nil => rfl
  | cons x xs ih =>
    cases xs with
    | nil => rfl
    | cons y ys => simpa [List.intersperse_cons_cons] using ih

theorem mem_intersperse {α : Type} {sep x : α} {xs : List α} (member : x ∈ xs.intersperse sep) :
    x = sep ∨ x ∈ xs := by
  induction xs with
  | nil => simp at member
  | cons y ys ih =>
    cases ys with
    | nil => exact .inr (by simpa using member)
    | cons z zs =>
      simp only [List.intersperse_cons_cons, List.mem_cons] at member ih ⊢
      rcases member with rfl | rfl | member
      · exact .inr (.inl rfl)
      · exact .inl rfl
      · exact (ih member).imp_right .inr

/-- The parts of a blur are text and samples. -/
theorem mem_blurSum {r : Int} {parts : List Term} (whole : blurSum r = .raw parts) :
    ∀ p ∈ parts, (∃ s, p = .text s) ∨ ∃ dx dy, p = blurSample dx dy := by
  intro p member
  simp only [blurSum, Term.raw.injEq] at whole
  subst whole
  simp only [List.cons_append, List.mem_cons, List.mem_append, List.not_mem_nil, or_false] at member
  rcases member with rfl | member | rfl
  · exact .inl ⟨_, rfl⟩
  · rcases mem_intersperse member with rfl | member
    · exact .inl ⟨_, rfl⟩
    · obtain ⟨dy, _, inRow⟩ := List.mem_flatMap.mp member
      obtain ⟨dx, _, rfl⟩ := List.mem_map.mp inRow
      exact .inr ⟨dx, dy, rfl⟩
  · exact .inl ⟨_, rfl⟩

theorem regular_blurSum (r : Int) : (blurSum r).Regular := by
  refine Term.regular_raw fun p member => ?_
  rcases mem_blurSum rfl p member with ⟨s, rfl⟩ | ⟨dx, dy, rfl⟩
  · exact .inl rfl
  · exact .inr (regular_blurSample dx dy)

theorem names_blurSum (r : Int) : (blurSum r).names = [] := by
  obtain ⟨parts, whole⟩ : ∃ parts, blurSum r = .raw parts := ⟨_, rfl⟩
  rw [whole]
  simp only [Term.names, Term.gather, Term.gatherAll_eq, List.flatMap_eq_nil_iff]
  intro p member
  rcases mem_blurSum whole p member with ⟨s, rfl⟩ | ⟨dx, dy, rfl⟩ <;> simp [blurSample]

theorem works_boxBlur (catalog : Catalog c) {data : Members}
    (valid : boxBlur.validate (.obj data) = .ok ()) :
    Works c id boxBlur (.obj data) inputs operand := by
  intro turn
  obtain ⟨r, -, -, read⟩ := exists_radius valid
  refine ⟨[("color", .ofValue (blurSum r))], c, ?_, catalog, .refl _ c,
    delivers_single (by simp [boxBlur, Socket.color]) rfl
      ⟨.ofValue c (regular_blurSum r) (names_blurSum r), ?_⟩⟩
  · simp only [boxBlur, read, Outcome.ok_bind, radiusOf]
    rfl
  · have formula_eq : formula boxBlur.name (.obj data) operand "color" =
        blurFormula (.obj data) := rfl
    rw [formula_eq]
    simp only [blurFormula, read, Outcome.ok_bind, radiusOf, Fragment.ofValue,
      blurSum, Term.inlineWith_raw, Term.ungroup_raw]
    simp only [List.map_cons, List.map_append, map_intersperse, List.map_flatMap, List.map_map,
      List.length_flatMap, List.length_map, Function.comp_def, blurSample, Term.inlineWith_shared,
      Term.inlineWith_text, Term.ungroup_text, List.map_nil]

end Sources

section Combining

/-- What stands on an input, or a value that stands for itself in place of it. -/
theorem Arrives.firstOr (arrives : Arrives c inputs operand) (key : String) {value : Term}
    (regular : value.Regular) (unnamed : value.names = []) (unshared : value.outerShared = []) :
    Carries c (Inputs.firstOr inputs key value) ((operand key).getD value) := by
  have related := arrives key
  unfold Inputs.firstOr
  generalize Inputs.first? inputs key = f at related
  generalize operand key = m at related
  cases related with
  | some carries => exact carries
  | none => exact carries_ofValue c regular unnamed unshared

theorem Arrives.colorOr (arrives : Arrives c inputs operand) (key : String) :
    Carries c (Inputs.firstOr inputs key .black) ((operand key).getD .black) :=
  arrives.firstOr key regular_black rfl rfl

theorem works_canvas (catalog : Catalog c) (data : Json) (arrives : Arrives c inputs operand) :
    Works c id canvas data inputs operand := by
  intro turn
  refine ⟨_, c, rfl, catalog, .refl _ c, by simp [canvas], fun _ => ?_⟩
  exact ⟨Inputs.firstOr inputs "color" .black, by simp, arrives.colorOr "color"⟩

/-- Two fragments joined by a formula that keeps its operands whole. -/
theorem carries_joinPair (catalog : Catalog c) (arrives : Arrives c inputs operand)
    {join : Term → Term → Term}
    (regular : ∀ a b : Term, a.Regular → b.Regular → (join a b).Regular)
    (names : ∀ a b : Term, (join a b).names = a.names ++ b.names)
    (means : ∀ (ρ : String → Term) (a b m n : Term), a.inlineWith ρ = m.ungroup →
      b.inlineWith ρ = n.ungroup → (join a b).inlineWith ρ = (join m n).ungroup) :
    Carries c (joinPair join inputs) (pairFormula join (operand "colorA") (operand "colorB")) := by
  have first := arrives "colorA"
  have second := arrives "colorB"
  unfold joinPair
  generalize Inputs.first? inputs "colorA" = f at first
  generalize Inputs.first? inputs "colorB" = g at second
  generalize operand "colorA" = m at first
  generalize operand "colorB" = n at second
  cases first with
  | none =>
    cases second with
    | none => exact carries_ofValue c regular_black rfl rfl
    | some carries => exact carries
  | @some f m carries =>
    cases second with
    | none => exact carries
    | @some g n carries' =>
      refine ⟨?_, means _ _ _ _ _ carries.2 carries'.2⟩
      show Scoped c (f.combineWith g [] _)
      rw [combineWith_nil]
      refine Scoped.combine catalog (by simp [carries.1, carries'.1])
        (regular _ _ carries.1.regular carries'.1.regular) ?_
      intro name member
      simpa [names] using member

theorem works_blendColors (catalog : Catalog c) (data : Json) (arrives : Arrives c inputs operand) :
    Works c id blendColors data inputs operand := by
  intro turn
  refine ⟨_, c, rfl, catalog, .refl _ c,
    delivers_single (by simp [blendColors, Socket.color]) rfl
      (carries_joinPair catalog arrives ?_ (by simp) ?_)⟩
  · exact fun a b regularA regularB => Term.regular_raw (by simp [Term.isText, regularA, regularB])
  · intro ρ a b m n meansA meansB
    simp [meansA, meansB]

theorem works_multiplyColors (catalog : Catalog c) (data : Json)
    (arrives : Arrives c inputs operand) : Works c id multiplyColors data inputs operand := by
  intro turn
  refine ⟨_, c, rfl, catalog, .refl _ c,
    delivers_single (by simp [multiplyColors, Socket.color]) rfl
      (carries_joinPair catalog arrives ?_ ?_ ?_)⟩
  · exact fun a b regularA regularB =>
      Term.regular_raw (by simp [Term.isText, regularA.group, regularB.group])
  · intro a b
    have namesA := a.names_group
    have namesB := b.names_group
    simp only [Term.names] at namesA namesB
    simp [namesA, namesB]
  · intro ρ a b m n meansA meansB
    simp [meansA, meansB]

theorem works_mixColors (catalog : Catalog c) (data : Json) (arrives : Arrives c inputs operand) :
    Works c id mixColors data inputs operand := by
  intro turn
  have half : (Term.number (.tenths 5)).Regular :=
    (Term.regular_number _).mpr (isFinite_tenths 5 (by simp))
  have first := arrives.colorOr "colorA"
  have second := arrives.colorOr "colorB"
  have factor := arrives.firstOr "factor" half (by simp) (by simp)
  refine ⟨_, c, rfl, catalog, .refl _ c,
    delivers_single (by simp [mixColors, Socket.color]) rfl ⟨Scoped.combine catalog ?_ ?_ ?_, ?_⟩⟩
  · simp [first.1, second.1, factor.1]
  · exact Term.regular_call (by simp [first.1.regular, second.1.regular, factor.1.regular])
  · intro n member
    simpa using member
  · show Term.inlineWith _ (.call "mix" _) = Term.ungroup (.call "mix" _)
    simp [first.2, second.2, factor.2]

theorem works_invertColor (catalog : Catalog c)
    (fresh : ∀ n, Label.Own id n → n ∉ c.map Definition.name) (data : Json)
    (arrives : Arrives c inputs operand) : Works c id invertColor data inputs operand := by
  intro turn
  have own : Label.Own id ("inv" ++ "_" ++ id.repr) := .mk "inv" (by simp)
  obtain ⟨c', catalog', grows, scope, means⟩ :=
    (arrives.colorOr "color").bind catalog (fresh _ own) "vec4"
  refine ⟨_, c', rfl, catalog', grows.mono (fun n same => same ▸ own),
    delivers_single (by simp [invertColor, Socket.color]) rfl ⟨scope.withValue ?_ ?_, ?_⟩⟩
  · have regular := scope.regular
    refine Term.regular_vec fun t member => ?_
    simp only [List.mem_cons, List.not_mem_nil, or_false] at member
    rcases member with rfl | rfl
    · refine Term.regular_raw fun p inside => ?_
      simp only [List.mem_cons, List.not_mem_nil, or_false] at inside
      rcases inside with rfl | rfl
      · exact .inl rfl
      · exact .inr ((Term.regular_swizzle _ _).mpr regular)
    · exact (Term.regular_swizzle _ _).mpr regular
  · intro n member
    simp only [Term.names, Term.gather, Term.gatherAll_eq, List.flatMap_cons, List.flatMap_nil,
      Term.refName, List.nil_append, List.append_nil, List.mem_append, or_self] at member
    exact member
  · show Term.inlineWith _ (.vec .vec4 _) = Term.ungroup (.vec .vec4 _)
    simp only [Term.inlineWith_vec, Term.ungroup_vec, List.map_cons, List.map_nil,
      Term.inlineWith_raw, Term.ungroup_raw, Term.inlineWith_swizzle, Term.ungroup_swizzle,
      Term.inlineWith_text, Term.ungroup_text]
    rw [← means]
    rfl

theorem works_splitColor (catalog : Catalog c)
    (fresh : ∀ n, Label.Own id n → n ∉ c.map Definition.name) (data : Json)
    (arrives : Arrives c inputs operand) : Works c id splitColor data inputs operand := by
  intro turn
  have own : Label.Own id ("split" ++ "_" ++ id.repr) := .mk "split" (by simp)
  obtain ⟨c', catalog', grows, scope, means⟩ :=
    (arrives.colorOr "color").bind catalog (fresh _ own) "vec4"
  refine ⟨_, c', rfl, catalog', grows.mono (fun n same => same ▸ own), ?_, by simp [splitColor]⟩
  have each : ∀ key, Carries c' (Fragment.withValue _ (.swizzle _ key))
      (.swizzle ((operand "color").getD .black) key) := fun key =>
    ⟨scope.withValue ((Term.regular_swizzle _ key).mpr scope.regular) (by simp),
      congrArg (Term.swizzle · key) means⟩
  intro s member
  simp only [splitColor, channels, List.map_cons, List.map_nil, List.mem_cons, List.not_mem_nil,
    or_false] at member
  rcases member with rfl | rfl | rfl | rfl
  · exact ⟨_, rfl, each "r"⟩
  · exact ⟨_, rfl, each "g"⟩
  · exact ⟨_, rfl, each "b"⟩
  · exact ⟨_, rfl, each "a"⟩

theorem works_joinColor (catalog : Catalog c) (data : Json) (arrives : Arrives c inputs operand) :
    Works c id joinColor data inputs operand := by
  intro turn
  have each : ∀ channel, Carries c (Inputs.firstOr inputs channel (channelDefault channel))
      ((operand channel).getD (channelDefault channel)) := by
    intro channel
    refine arrives.firstOr channel ?_ (by simp [channelDefault]) (by simp [channelDefault])
    refine (Term.regular_number _).mpr ?_
    split <;> exact isFinite_tenths _ (by simp)
  refine ⟨_, c, rfl, catalog, .refl _ c,
    delivers_single (by simp [joinColor, Socket.color]) rfl ⟨Scoped.combine catalog ?_ ?_ ?_, ?_⟩⟩
  · intro f member
    obtain ⟨channel, _, rfl⟩ := List.mem_map.mp member
    exact (each channel).1
  · refine Term.regular_vec fun t member => ?_
    obtain ⟨f, inside, rfl⟩ := List.mem_map.mp member
    obtain ⟨channel, _, rfl⟩ := List.mem_map.mp inside
    exact (each channel).1.regular
  · intro n member
    simpa using member
  · show Term.inlineWith _ (.vec .vec4 _) = Term.ungroup (.vec .vec4 _)
    rw [Term.inlineWith_vec, Term.ungroup_vec, List.map_map, List.map_map, List.map_map]
    congr 1
    exact List.map_congr_left fun channel _ => (each channel).2

end Combining

/-- Every worker of a builtin kind succeeds on valid data, whatever inputs are connected, and builds
what the formula of its kind says. -/
theorem works_builtin {k : Kind} (builtin : k ∈ Registry.builtinKinds) (catalog : Catalog c)
    (fresh : ∀ n, Label.Own id n → n ∉ c.map Definition.name) {data : Members}
    (valid : k.validate (.obj data) = .ok ()) (arrives : Arrives c inputs operand) :
    Works c id k (.obj data) inputs operand := by
  simp only [Registry.builtinKinds, List.mem_cons, List.not_mem_nil, or_false] at builtin
  rcases builtin with rfl | rfl | rfl | rfl | rfl | rfl | rfl | rfl | rfl | rfl | rfl | rfl
  · exact works_canvas catalog _ arrives
  · exact works_webcam catalog fresh valid
  · exact works_coolColor catalog _
  · exact works_blendColors catalog _ arrives
  · exact works_constantColor catalog valid
  · exact works_constantNumber catalog valid
  · exact works_boxBlur catalog valid
  · exact works_multiplyColors catalog _ arrives
  · exact works_mixColors catalog _ arrives
  · exact works_invertColor catalog fresh _ arrives
  · exact works_splitColor catalog fresh _ arrives
  · exact works_joinColor catalog _ arrives

end Kind

end ShaderFlow
