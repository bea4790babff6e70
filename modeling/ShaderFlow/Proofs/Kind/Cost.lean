import ShaderFlow.Proofs.Kind.Formula
import ShaderFlow.Proofs.Term.Size

set_option autoImplicit false

namespace ShaderFlow

open Term

/-- If a value may be repeated without a name, it has at most the size of a constant color. -/
def Term.Light (t : Term) : Prop := t.isInline = true → t.size ≤ 5

namespace Fragment

theorem distinct_subset (statements : List Term) : distinct statements ⊆ statements := by
  induction statements using List.reverseRecOn with
  | nil => simp [distinct]
  | append_singleton statements t ih =>
    rw [distinct_snoc]
    have earlier := List.subset_append_of_subset_left [t] ih
    split
    · exact earlier
    · exact List.append_subset.mpr ⟨earlier, List.subset_append_right _ _⟩

theorem mem_combine {fs : List Fragment} {value t : Term}
    (member : t ∈ (combine fs value).statements) : ∃ f ∈ fs, t ∈ f.statements :=
  List.mem_flatMap.mp (distinct_subset _ member)

/-- Naming a value moves it to a definition, and leaves a value that is small. -/
theorem exists_bind (f : Fragment) (name type : String) :
    ∃ added, (f.bind name type).statements = f.statements ++ added ∧
      sizeAll added + (f.bind name type).value.size ≤ f.value.size + 2 ∧
      (f.value.Light → (f.bind name type).value.size ≤ 5) := by
  unfold bind
  split
  · rename_i plain
    refine ⟨[], by simp, by simp [sizeAll], fun light => ?_⟩
    cases shape : f.value with
    | absent => simp [Term.size]
    | _ =>
      rw [shape] at plain light
      exact light (by simpa [isAbsent] using plain)
  · exact ⟨[.define name type f.value], rfl, by simp only [sizeAll, Term.size]; omega,
      fun _ => by simp [Term.size]⟩

end Fragment

namespace Kind

/-- The values that stand first on some inputs. -/
def firstValues (keys : List String) (inputs : Inputs) : List Term :=
  keys.filterMap fun key => (Inputs.first? inputs key).map Fragment.value

/-- The values on some outputs. -/
def valuesOn (keys : List String) (produced : Outputs) : List Term :=
  keys.filterMap fun key => (produced.lookup key).map Fragment.value

theorem valuesOn_map (sockets : List Socket) (produced : Outputs) :
    valuesOn (sockets.map Socket.key) produced =
      sockets.flatMap fun s => ((produced.lookup s.key).map Fragment.value).toList := by
  rw [valuesOn, List.filterMap_map, List.filterMap_eq_flatMap_toList]
  rfl

/-- What a worker made of its inputs: each statement is one that it added or that arrived, and all
it added stays within a bound. -/
structure Adds (k : Kind) (inputs : Inputs) (produced : Outputs) (bound : Nat) (added : List Term) :
    Prop where
  origin : ∀ key f, produced.lookup key = some f → ∀ t ∈ f.statements,
    t ∈ added ∨ ∃ input g, Inputs.first? inputs input = some g ∧ t ∈ g.statements
  light : ∀ key f, produced.lookup key = some f → f.value.Light
  cost : sizeAll added + sizeAll (valuesOn (k.outputs.map Socket.key) produced) ≤
    bound + sizeAll (firstValues (k.inputs.map Socket.key) inputs)

variable {k : Kind} {inputs : Inputs} {produced : Outputs}

theorem Adds.within {bound bound' : Nat} {added : List Term}
    (adds : Adds k inputs produced bound added)
    (le : bound ≤ bound') : Adds k inputs produced bound' added :=
  { adds with cost := Nat.le_trans adds.cost (Nat.add_le_add_right le _) }

theorem eq_of_lookup_single {key key' : String} {f f' : Fragment}
    (found : List.lookup key' [(key, f)] = some f') : f' = f := by
  obtain ⟨_, _, split, _⟩ := List.lookup_eq_some_iff.mp found
  have member : (key', f') ∈ [(key, f)] := by simp [split]
  exact (Prod.mk.inj (List.mem_singleton.mp member)).2

theorem adds_single {key : String} {f : Fragment} {bound : Nat} {added : List Term}
    (output : k.outputs.map Socket.key = [key])
    (origin : ∀ t ∈ f.statements,
      t ∈ added ∨ ∃ input g, Inputs.first? inputs input = some g ∧ t ∈ g.statements)
    (light : f.value.Light)
    (cost : sizeAll added + f.value.size ≤
      bound + sizeAll (firstValues (k.inputs.map Socket.key) inputs)) :
    Adds k inputs [(key, f)] bound added := by
  refine ⟨fun _ _ found => eq_of_lookup_single found ▸ origin,
    fun _ _ found => eq_of_lookup_single found ▸ light, ?_⟩
  rw [output]
  simpa [valuesOn, sizeAll] using cost

section Operands

theorem mem_firstOr {key : String} {value t : Term}
    (member : t ∈ (Inputs.firstOr inputs key value).statements) :
    ∃ input g, Inputs.first? inputs input = some g ∧ t ∈ g.statements := by
  unfold Inputs.firstOr at member
  cases found : Inputs.first? inputs key with
  | none => simp [found, Fragment.ofValue] at member
  | some g => exact ⟨key, g, found, by simpa [found] using member⟩

theorem light_firstOr (lights : ∀ key f, Inputs.first? inputs key = some f → f.value.Light)
    (key : String) {value : Term} (small : value.size ≤ 5) :
    (Inputs.firstOr inputs key value).value.Light := by
  unfold Inputs.firstOr
  cases found : Inputs.first? inputs key with
  | none => exact fun _ => small
  | some f => exact lights key f found

theorem firstValues_cons (key : String) (keys : List String) (inputs : Inputs) :
    firstValues (key :: keys) inputs =
      ((Inputs.first? inputs key).map Fragment.value).toList ++ firstValues keys inputs := by
  rw [firstValues, List.filterMap_cons, ← firstValues]
  cases Inputs.first? inputs key <;> rfl

/-- Operands are the values that arrive, and small ones in place of those that are missing. -/
theorem sizeAll_operands_le (inputs : Inputs) {keys : List String} {standard : String → Term}
    (small : ∀ key ∈ keys, (standard key).size ≤ 5) :
    sizeAll (keys.map fun key => (Inputs.firstOr inputs key (standard key)).value) ≤
      5 * keys.length + sizeAll (firstValues keys inputs) := by
  induction keys with
  | nil => simp [sizeAll]
  | cons key keys ih =>
    have here := small key (by simp)
    have rest := ih fun key member => small key (by simp [member])
    rw [List.map_cons, firstValues_cons, sizeAll, sizeAll_append, List.length_cons]
    cases found : Inputs.first? inputs key with
    | none =>
      simp only [Inputs.firstOr, found, Option.getD_none, Fragment.ofValue, Option.map_none,
        Option.toList_none, sizeAll] at rest ⊢
      omega
    | some f =>
      simp only [Inputs.firstOr, found, Option.getD_some, Option.map_some, Option.toList_some,
        sizeAll] at rest ⊢
      omega

theorem size_color (r g b a : Binary64) : (Term.color r g b a).size = 5 := rfl

theorem size_firstOr_black_le (inputs : Inputs) (key : String) :
    (Inputs.firstOr inputs key .black).value.size ≤ 5 + sizeAll (firstValues [key] inputs) := by
  have small : ∀ key' ∈ [key], Term.black.size ≤ 5 := fun _ _ => Nat.le_of_eq (size_color ..)
  simpa [sizeAll] using sizeAll_operands_le inputs small

end Operands

section Sources

theorem size_textureSample (x y : Binary64) : (textureSample x y).size = 12 := rfl

theorem size_blurSample (dx dy : Int) : (blurSample dx dy).size = 13 := rfl

theorem length_offsets (r : Int) : (offsets r).length = (2 * r + 1).toNat := by simp [offsets]

/-- A blur adds up at most 81 samples. -/
theorem size_blurSum_le {r : Int} (inRange : r ≤ maxRadius) : (blurSum r).size ≤ 1137 := by
  have side : (offsets r).length ≤ 9 := by
    rw [length_offsets]
    unfold maxRadius at inRange
    omega
  have count : ((offsets r).flatMap fun dy => (offsets r).map fun dx => blurSample dx dy).length ≤
      81 := by
    have square := Nat.mul_le_mul side side
    simpa [List.length_flatMap] using square
  have samples :
      sizeAll ((offsets r).flatMap fun dy => (offsets r).map fun dx => blurSample dx dy) ≤
      13 * ((offsets r).flatMap fun dy => (offsets r).map fun dx => blurSample dx dy).length := by
    refine sizeAll_le_mul fun t member => ?_
    obtain ⟨dy, _, inRow⟩ := List.mem_flatMap.mp member
    obtain ⟨dx, _, rfl⟩ := List.mem_map.mp inRow
    exact Nat.le_of_eq (size_blurSample dx dy)
  have joined := sizeAll_intersperse_le
    ((offsets r).flatMap fun dy => (offsets r).map fun dx => blurSample dx dy) (.text " + ")
  simp only [blurSum, Term.size, List.cons_append, sizeAll, sizeAll_append] at joined ⊢
  omega

/-- What needs no input adds all there is. -/
theorem adds_source {key : String} {f : Fragment} {bound : Nat}
    (output : k.outputs.map Socket.key = [key]) (light : f.value.Light)
    (cost : sizeAll f.statements + f.value.size ≤ bound) :
    ∃ added, Adds k inputs [(key, f)] bound added :=
  ⟨f.statements, adds_single output (fun _ member => .inl member) light
    (Nat.le_trans cost (Nat.le_add_right _ _))⟩

theorem adds_coolColor {seat : Seat} {data : Json}
    (worked : coolColor.worker seat data inputs = .ok produced) :
    ∃ added, Adds coolColor inputs produced 5 added := by
  cases worked
  refine adds_source rfl (fun _ => Nat.le_refl 5) ?_
  simp [sizeAll, Fragment.ofValue, size_color]

theorem adds_constantColor {seat : Seat} {data : Json}
    (worked : constantColor.worker seat data inputs = .ok produced) :
    ∃ added, Adds constantColor inputs produced 5 added := by
  obtain ⟨value, _, worked⟩ := Outcome.bind_eq_ok_iff.mp worked
  obtain ⟨xs, read, same⟩ := Outcome.bind_eq_ok_iff.mp worked
  cases same
  have components : sizeAll (xs.map .number) ≤ 1 * (xs.map Term.number).length := by
    refine sizeAll_le_mul fun t member => ?_
    obtain ⟨x, _, rfl⟩ := List.mem_map.mp member
    exact Nat.le_refl 1
  rw [List.length_map, (numbers_eq_ok read).1] at components
  have small : (Term.vec .vec4 (xs.map .number)).size ≤ 5 := by
    rw [Term.size]
    omega
  refine adds_source rfl (fun _ => small) ?_
  simp only [sizeAll, Fragment.ofValue]
  omega

theorem adds_constantNumber {seat : Seat} {data : Json}
    (worked : constantNumber.worker seat data inputs = .ok produced) :
    ∃ added, Adds constantNumber inputs produced 1 added := by
  obtain ⟨value, _, worked⟩ := Outcome.bind_eq_ok_iff.mp worked
  obtain ⟨xs, _, worked⟩ := Outcome.bind_eq_ok_iff.mp worked
  split at worked
  · cases worked
    refine adds_source rfl (fun _ => ?_) ?_ <;> simp [sizeAll, Fragment.ofValue, Term.size]
  · cases worked

theorem adds_webcam {seat : Seat} {data : Json}
    (worked : webcam.worker seat data inputs = .ok produced) :
    ∃ added, Adds webcam inputs produced 14 added := by
  obtain ⟨value, _, worked⟩ := Outcome.bind_eq_ok_iff.mp worked
  obtain ⟨xs, _, worked⟩ := Outcome.bind_eq_ok_iff.mp worked
  split at worked
  · cases worked
    refine adds_source rfl (fun _ => ?_) ?_ <;> simp [sizeAll, Term.size, size_textureSample]
  · cases worked

theorem adds_boxBlur {seat : Seat} {data : Members}
    (valid : boxBlur.validate (.obj data) = .ok ())
    (worked : boxBlur.worker seat (.obj data) inputs = .ok produced) :
    ∃ added, Adds boxBlur inputs produced 1137 added := by
  obtain ⟨r, -, inRange, read⟩ := exists_radius valid
  simp only [boxBlur, read, Outcome.ok_bind, radiusOf] at worked
  cases worked
  refine adds_source rfl (fun inline => ?_) ?_
  · simp [Fragment.ofValue, blurSum, isInline] at inline
  · simpa [sizeAll, Fragment.ofValue] using size_blurSum_le inRange

end Sources

section Combining

theorem adds_canvas {seat : Seat} {data : Json}
    (worked : canvas.worker seat data inputs = .ok produced) :
    ∃ added, Adds canvas inputs produced 6 added := by
  cases worked
  have bound := size_firstOr_black_le inputs "color"
  refine ⟨[.commit (Inputs.firstOr inputs "color" .black).value], ?_, ?_, ?_⟩
  · intro _ _ found t member
    rw [eq_of_lookup_single found] at member
    rcases List.mem_append.mp member with given | last
    · exact .inr (mem_firstOr given)
    · exact .inl last
  · intro _ _ found
    rw [eq_of_lookup_single found]
    exact fun inline => by simp [Fragment.complete, isInline] at inline
  · simp only [canvas, valuesOn, List.map_nil, List.filterMap_nil, sizeAll, Term.size,
      List.map_cons, Socket.color] at bound ⊢
    omega

/-- Two values joined by a formula that adds little to them. -/
theorem adds_joinPair {join : Term → Term → Term}
    (lights : ∀ key f, Inputs.first? inputs key = some f → f.value.Light)
    (small : ∀ a b, (join a b).size ≤ 8 + a.size + b.size)
    (composite : ∀ a b, (join a b).isInline = false)
    (sockets : k.inputs = colorPair) (output : k.outputs.map Socket.key = ["color"]) :
    ∃ added, Adds k inputs [("color", joinPair join inputs)] 8 added := by
  have keys : k.inputs.map Socket.key = ["colorA", "colorB"] := by rw [sockets]; rfl
  refine ⟨[], adds_single output ?_ ?_ ?_⟩
  · intro t member
    right
    unfold joinPair at member
    split at member
    · simp [Fragment.ofValue] at member
    · rename_i f _ found
      exact ⟨_, f, ‹_›, member⟩
    · rename_i f _ found
      exact ⟨_, f, ‹_›, member⟩
    · rename_i f g first second
      have inside := Fragment.distinct_subset _ member
      simp only [List.append_nil, List.mem_append] at inside
      rcases inside with inside | inside
      · exact ⟨_, f, first, inside⟩
      · exact ⟨_, g, second, inside⟩
  · unfold joinPair
    split
    · exact fun _ => Nat.le_refl 5
    · exact lights _ _ ‹_›
    · exact lights _ _ ‹_›
    · intro inline
      rw [Fragment.combineWith, composite] at inline
      cases inline
  · rw [keys, firstValues_cons, firstValues_cons, sizeAll_append, sizeAll_append]
    unfold joinPair
    generalize Inputs.first? inputs "colorA" = first
    generalize Inputs.first? inputs "colorB" = second
    cases first with
    | none =>
      cases second with
      | none => exact Nat.le_add_right_of_le (show 0 + 5 ≤ 8 by omega)
      | some g => simp [sizeAll, firstValues]
    | some f =>
      cases second with
      | none => simp [sizeAll, firstValues]
      | some g =>
        have bound := small f.value g.value
        simp only [Fragment.combineWith, sizeAll, Option.map_some, Option.toList_some]
        omega

theorem adds_blendColors {seat : Seat} {data : Json}
    (lights : ∀ key f, Inputs.first? inputs key = some f → f.value.Light)
    (worked : blendColors.worker seat data inputs = .ok produced) :
    ∃ added, Adds blendColors inputs produced 8 added := by
  cases worked
  refine adds_joinPair lights (fun a b => ?_) (fun _ _ => rfl) rfl rfl
  simp only [Term.size, sizeAll]
  omega

theorem size_group_le (t : Term) : t.group.size ≤ t.size + 3 := by
  cases t with
  | raw ps => simp only [Term.group, Term.size, sizeAll]; omega
  | _ => exact Nat.le_add_right _ _

theorem adds_multiplyColors {seat : Seat} {data : Json}
    (lights : ∀ key f, Inputs.first? inputs key = some f → f.value.Light)
    (worked : multiplyColors.worker seat data inputs = .ok produced) :
    ∃ added, Adds multiplyColors inputs produced 8 added := by
  cases worked
  refine adds_joinPair lights (fun a b => ?_) (fun _ _ => rfl) rfl rfl
  have first := size_group_le a
  have second := size_group_le b
  simp only [Term.size, sizeAll]
  omega

theorem adds_mixColors {seat : Seat} {data : Json}
    (worked : mixColors.worker seat data inputs = .ok produced) :
    ∃ added, Adds mixColors inputs produced 16 added := by
  cases worked
  refine ⟨[], adds_single rfl (fun t member => ?_) (fun inline => by cases inline) ?_⟩
  · obtain ⟨f, inside, found⟩ := Fragment.mem_combine member
    simp only [List.mem_cons, List.not_mem_nil, or_false] at inside
    rcases inside with rfl | rfl | rfl <;> exact .inr (mem_firstOr found)
  · have bound := @sizeAll_operands_le inputs ["colorA", "colorB", "factor"]
      (fun key => if key = "factor" then .number (.tenths 5) else .black) (by decide)
    show sizeAll [] + Term.size (.call "mix" _) ≤
      16 + sizeAll (firstValues ["colorA", "colorB", "factor"] inputs)
    simp only [List.map_cons, List.map_nil, sizeAll, Term.size, List.length_cons, List.length_nil,
      String.reduceEq, if_false, if_true] at bound ⊢
    omega

theorem adds_joinColor {seat : Seat} {data : Json}
    (worked : joinColor.worker seat data inputs = .ok produced) :
    ∃ added, Adds joinColor inputs produced 21 added := by
  cases worked
  refine ⟨[], adds_single rfl (fun t member => ?_) ?_ ?_⟩
  · obtain ⟨f, inside, found⟩ := Fragment.mem_combine member
    obtain ⟨channel, _, rfl⟩ := List.mem_map.mp inside
    exact .inr (mem_firstOr found)
  · intro inline
    have numbers := List.all_eq_true.mp (show List.all _ Term.isNumber = true from inline)
    have components : sizeAll ((channels.map fun c =>
        Inputs.firstOr inputs c (channelDefault c)).map (·.value)) ≤ 1 * 4 := by
      refine sizeAll_le_mul fun t member => ?_
      cases t with
      | number x => exact Nat.le_refl 1
      | _ => cases numbers _ member
    show Term.size (.vec .vec4 _) ≤ 5
    rw [Term.size]
    omega
  · have bound := @sizeAll_operands_le inputs channels channelDefault (by decide)
    show sizeAll [] + Term.size (.vec .vec4 _) ≤ 21 + sizeAll (firstValues channels inputs)
    rw [Term.size, List.map_map, show channels.length = 4 from rfl] at *
    simp only [sizeAll, Function.comp_def]
    omega

theorem adds_invertColor {seat : Seat} {data : Json}
    (lights : ∀ key f, Inputs.first? inputs key = some f → f.value.Light)
    (worked : invertColor.worker seat data inputs = .ok produced) :
    ∃ added, Adds invertColor inputs produced 17 added := by
  cases worked
  obtain ⟨added, statements, cost, small⟩ :=
    (Inputs.firstOr inputs "color" .black).exists_bind s!"inv_{seat.label}" "vec4"
  have bound := size_firstOr_black_le inputs "color"
  have named := small (light_firstOr lights "color" (Nat.le_refl 5))
  refine ⟨added, adds_single rfl (fun t member => ?_) (fun inline => by cases inline) ?_⟩
  · rw [Fragment.withValue, statements] at member
    rcases List.mem_append.mp member with given | new
    · exact .inr (mem_firstOr given)
    · exact .inl new
  · show sizeAll added + Term.size (.vec .vec4 _) ≤ 17 + sizeAll (firstValues ["color"] inputs)
    simp only [Term.size, sizeAll]
    omega

theorem adds_splitColor {seat : Seat} {data : Json}
    (lights : ∀ key f, Inputs.first? inputs key = some f → f.value.Light)
    (worked : splitColor.worker seat data inputs = .ok produced) :
    ∃ added, Adds splitColor inputs produced 26 added := by
  obtain ⟨added, statements, cost, small⟩ :=
    (Inputs.firstOr inputs "color" .black).exists_bind s!"split_{seat.label}" "vec4"
  have bound := size_firstOr_black_le inputs "color"
  have little := small (light_firstOr lights "color" (Nat.le_refl 5))
  simp only [splitColor, Except.ok.injEq] at worked
  generalize (Inputs.firstOr inputs "color" .black).bind s!"split_{seat.label}" "vec4" = named
    at statements cost little worked
  subst worked
  have each : ∀ key f, (channels.map fun c => (c, named.withValue (.swizzle named.value c))).lookup
      key = some f → f.statements = named.statements ∧ f.value.isInline = false := by
    intro key f found
    obtain ⟨front, back, split, _⟩ := List.lookup_eq_some_iff.mp found
    obtain ⟨c, _, same⟩ := List.mem_map.mp (split ▸ List.mem_append_right front List.mem_cons_self)
    obtain ⟨rfl, rfl⟩ := Prod.mk.inj same
    exact ⟨rfl, rfl⟩
  refine ⟨added, fun key f found t member => ?_, fun key f found inline => ?_, ?_⟩
  · rw [(each key f found).1, statements] at member
    rcases List.mem_append.mp member with given | new
    · exact .inr (mem_firstOr given)
    · exact .inl new
  · rw [(each key f found).2] at inline
    cases inline
  · show sizeAll added + sizeAll [.swizzle _ "r", .swizzle _ "g", .swizzle _ "b", .swizzle _ "a"] ≤
      26 + sizeAll (firstValues ["color"] inputs)
    simp only [Term.size, sizeAll]
    omega

end Combining

/-- The most that a worker adds. A blur with its 81 samples needs it. -/
def mostAdded : Nat := 1137

/-- Every worker of a builtin kind adds a bounded amount to what arrives. -/
theorem adds_builtin (builtin : k ∈ Registry.builtinKinds) {data : Members} {seat : Seat}
    (valid : k.validate (.obj data) = .ok ())
    (lights : ∀ key f, Inputs.first? inputs key = some f → f.value.Light)
    (worked : k.worker seat (.obj data) inputs = .ok produced) :
    ∃ added, Adds k inputs produced mostAdded added := by
  have within : ∀ {bound : Nat}, bound ≤ mostAdded → (∃ added, Adds k inputs produced bound added) →
      ∃ added, Adds k inputs produced mostAdded added :=
    fun le ⟨added, adds⟩ => ⟨added, adds.within le⟩
  simp only [Registry.builtinKinds, List.mem_cons, List.not_mem_nil, or_false] at builtin
  rcases builtin with rfl | rfl | rfl | rfl | rfl | rfl | rfl | rfl | rfl | rfl | rfl | rfl
  · exact within (by decide) (adds_canvas worked)
  · exact within (by decide) (adds_webcam worked)
  · exact within (by decide) (adds_coolColor worked)
  · exact within (by decide) (adds_blendColors lights worked)
  · exact within (by decide) (adds_constantColor worked)
  · exact within (by decide) (adds_constantNumber worked)
  · exact within (by decide) (adds_boxBlur valid worked)
  · exact within (by decide) (adds_multiplyColors lights worked)
  · exact within (by decide) (adds_mixColors worked)
  · exact within (by decide) (adds_invertColor lights worked)
  · exact within (by decide) (adds_splitColor lights worked)
  · exact within (by decide) (adds_joinColor worked)

end Kind

end ShaderFlow
