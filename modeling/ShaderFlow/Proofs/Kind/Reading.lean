import ShaderFlow.Proofs.Kind.Cost
import ShaderFlow.Proofs.Reading.Lexicon

set_option autoImplicit false

namespace ShaderFlow

open Reading

namespace Kind

section Trees

/-- A color of fixed components. -/
def colorTree (components : List Binary64) : Tree := .call "vec4" (components.map .ofNumber)

def blackTree : Tree := colorTree [.tenths 0, .tenths 0, .tenths 0, .tenths 10]

def webcamTree (target : Target) (data : Json) : Tree :=
  match numbersIn data offsetDefaults "offset" 2 with
  | [x, y] => .sample target x y
  | _ => blackTree

def numberTree (data : Json) : Tree :=
  match do numberOf (← dataValue data zeroDefaults "value") with
  | .ok [x] => .ofNumber x
  | _ => .ofNumber (.tenths 0)

/-- The sum of the samples over their count. -/
def blurTree (target : Target) (data : Json) : Tree :=
  match do radiusOf (← dataValue data radiusDefaults "radius") with
  | .ok r =>
    let samples := (offsets r).flatMap fun dy =>
      (offsets r).map fun dx => Tree.sample target (smallNumber dx) (smallNumber dy)
    .binary .divide (.total samples) (.literal (smallNumber samples.length).text)
  | .error _ => blackTree

/-- Two colors joined; a single one is the result itself. -/
def pairTree (join : Tree → Tree → Tree) : Option Tree → Option Tree → Tree
  | none, none => blackTree
  | some a, none | none, some a => a
  | some a, some b => join a b

/-- The value of a channel that is not connected. -/
def channelNumber (channel : String) : Binary64 := if channel = "a" then .tenths 10 else .tenths 0

/-- What an output of a node is read as, by the kind of the node, its data, and what stands on the
inputs that are connected. -/
def treeOf (target : Target) (kind : String) (data : Json) (operand : String → Option Tree)
    (output : String) : Tree :=
  let color := (operand "color").getD blackTree
  match kind with
  | "Canvas" => color
  | "Webcam" => webcamTree target data
  | "Cool Color" => colorTree [.tenths 0, .tenths 7, .tenths 7, .tenths 10]
  | "Blend Colors" =>
    pairTree (fun a b => .binary .divide (.binary .plus a b) (.literal "2.0"))
      (operand "colorA") (operand "colorB")
  | "Color" => colorTree (numbersIn data whiteDefaults "color" 4)
  | "Number" => numberTree data
  | "Box Blur" => blurTree target data
  | "Multiply Colors" => pairTree (.binary .times) (operand "colorA") (operand "colorB")
  | "Mix Colors" =>
    .call "mix" [(operand "colorA").getD blackTree, (operand "colorB").getD blackTree,
      (operand "factor").getD (.ofNumber (.tenths 5))]
  | "Invert Color" =>
    .call "vec4" [.binary .minus (.call "vec3" [.literal "1.0"]) (.select color "rgb"),
      .select color "a"]
  | "Split Color" => .select color output
  | "Join Color" =>
    .call "vec4" (channels.map fun c => (operand c).getD (.ofNumber (channelNumber c)))
  | _ => blackTree

/-- The word in front of the name that workers of a kind give. -/
def ownWord? : String → Option String
  | "Webcam" => some "tex"
  | "Invert Color" => some "inv"
  | "Split Color" => some "split"
  | _ => none

/-- What the name stands for that the worker of a node gives: its sample, or the color it reads. -/
def ownTree (target : Target) (kind : String) (data : Json) (operand : String → Option Tree) :
    Tree :=
  match kind with
  | "Webcam" => webcamTree target data
  | _ => (operand "color").getD blackTree

theorem ownWord?_known {kind word : String} (given : ownWord? kind = some word) :
    word ∈ ["tex", "inv", "split"] := by
  unfold ownWord? at given
  split at given <;> simp_all

end Trees

/-- A statement defines a name by what it stands for. -/
def Explains (x : Lexicon) (t : Term) : Prop :=
  ∃ n type init tree, t = .define n type init ∧ x.stands n tree ∧ x.Reads .sum init tree

/-- The value of a fragment is read as a tree, and its statements define what they should. -/
structure Bears (x : Lexicon) (f : Fragment) (tree : Tree) : Prop where
  value : x.Reads (levelOf f.value) f.value tree
  explained : ∀ t ∈ f.statements, Explains x t

/-- What arrives on the inputs is read as the operands. -/
def Brings (x : Lexicon) (inputs : Inputs) (operand : String → Option Tree) : Prop :=
  ∀ key, Option.Rel (Bears x) (Inputs.first? inputs key) (operand key)

/-- The outputs of a node are read as they should, and so is the finished shader of a sink. -/
structure Presents (x : Lexicon) (k : Kind) (produced : Outputs) (tree : String → Tree) : Prop where
  outputs : ∀ s ∈ k.outputs, ∃ f, produced.lookup s.key = some f ∧ Bears x f (tree s.key)
  result : k.isSink = true → ∃ f, produced.lookup resultKey = some (f.complete [.commit f.value]) ∧
    Bears x f (tree resultKey)

/-- The lexicon knows the name that the worker of a node gives. -/
def Gives (x : Lexicon) (id : Int) (k : Kind) (data : Json) (operand : String → Option Tree) :
    Prop :=
  ∀ word, ownWord? k.name = some word →
    x.stands (word ++ "_" ++ id.repr) (ownTree x.target k.name data operand)

variable {x : Lexicon} {id : Int} {turn : Nat} {inputs : Inputs} {produced : Outputs}
  {operand : String → Option Tree} {f : Fragment} {tree : Tree}

section Fragments

theorem bears_ofValue {value : Term} (reads : x.Reads (levelOf value) value tree) :
    Bears x (.ofValue value) tree := ⟨reads, by simp [Fragment.ofValue]⟩

theorem bears_combine {fs : List Fragment} {value : Term}
    (explained : ∀ f ∈ fs, ∀ t ∈ f.statements, Explains x t)
    (reads : x.Reads (levelOf value) value tree) : Bears x (.combine fs value) tree := by
  refine ⟨reads, fun t member => ?_⟩
  obtain ⟨f, inside, given⟩ := Fragment.mem_combine member
  exact explained f inside t given

/-- A value may be named by a name that stands for it. -/
theorem Bears.bind (bears : Bears x f tree) {name : String} (stands : x.stands name tree)
    (type : String) : Bears x (f.bind name type) tree := by
  unfold Fragment.bind
  split
  · exact bears
  · refine ⟨Lexicon.reads_ref stands, fun t member => ?_⟩
    rcases List.mem_append.mp member with given | last
    · exact bears.explained t given
    · exact ⟨name, type, f.value, tree, List.mem_singleton.mp last, stands,
        bears.value.toSum⟩

theorem Brings.firstOr (brings : Brings x inputs operand) (key : String) {value : Term}
    (reads : x.Reads (levelOf value) value tree) :
    Bears x (Inputs.firstOr inputs key value) ((operand key).getD tree) := by
  have related := brings key
  unfold Inputs.firstOr
  generalize Inputs.first? inputs key = f at related
  generalize operand key = given at related
  cases related with
  | some bears => exact bears
  | none => exact bears_ofValue reads

theorem reads_numbers {xs : List Binary64} (finite : ∀ v ∈ xs, v.isFinite = true) (some : xs ≠ []) :
    x.Reads .operand (.vec .vec4 (xs.map .number)) (colorTree xs) := by
  refine Lexicon.reads_vec ?_ (by simpa using some)
  rw [List.forall₂_map_left_iff, List.forall₂_map_right_iff, List.forall₂_same]
  exact fun v member => (Lexicon.reads_number (finite v member)).toSum

theorem reads_black : x.Reads .operand .black blackTree :=
  @reads_numbers x [.tenths 0, .tenths 0, .tenths 0, .tenths 10] (by decide) (by simp)

theorem Brings.colorOr (brings : Brings x inputs operand) (key : String) :
    Bears x (Inputs.firstOr inputs key .black) ((operand key).getD blackTree) :=
  brings.firstOr key reads_black

theorem presents_single {k : Kind} {key : String} {tree : String → Tree}
    (sockets : ∀ s ∈ k.outputs, s.key = key) (noSink : k.isSink = false)
    (bears : Bears x f (tree key)) : Presents x k [(key, f)] tree where
  outputs := fun s member => ⟨f, by simp [sockets s member], by rwa [sockets s member]⟩
  result := by simp [noSink]

end Fragments

section Sources

theorem presents_coolColor {seat : Seat} {data : Json}
    (worked : coolColor.worker seat data inputs = .ok produced) :
    Presents x coolColor produced (treeOf x.target coolColor.name data operand) := by
  cases worked
  refine presents_single (by simp [coolColor, Socket.color]) rfl (bears_ofValue ?_)
  exact @reads_numbers x [.tenths 0, .tenths 7, .tenths 7, .tenths 10] (by decide) (by simp)

theorem presents_constantColor {seat : Seat} {data : Json}
    (worked : constantColor.worker seat data inputs = .ok produced) :
    Presents x constantColor produced (treeOf x.target constantColor.name data operand) := by
  obtain ⟨value, given, worked⟩ := Outcome.bind_eq_ok_iff.mp worked
  obtain ⟨xs, read, same⟩ := Outcome.bind_eq_ok_iff.mp worked
  cases same
  obtain ⟨length, finite⟩ := numbers_eq_ok read
  have tree_eq : treeOf x.target constantColor.name data operand "color" = colorTree xs := by
    simp only [treeOf, constantColor, numbersIn, given, Outcome.ok_bind, read]
  refine presents_single (by simp [constantColor, Socket.color]) rfl (bears_ofValue ?_)
  rw [tree_eq]
  refine reads_numbers finite ?_
  rintro rfl
  cases length

theorem presents_constantNumber {seat : Seat} {data : Json}
    (worked : constantNumber.worker seat data inputs = .ok produced) :
    Presents x constantNumber produced (treeOf x.target constantNumber.name data operand) := by
  obtain ⟨value, given, worked⟩ := Outcome.bind_eq_ok_iff.mp worked
  obtain ⟨xs, read, worked⟩ := Outcome.bind_eq_ok_iff.mp worked
  split at worked
  · rename_i v
    cases worked
    have tree_eq : treeOf x.target constantNumber.name data operand "value" = .ofNumber v := by
      simp only [treeOf, constantNumber, numberTree, given, Outcome.ok_bind, read]
    refine presents_single (by simp [constantNumber, Socket.scalar]) rfl (bears_ofValue ?_)
    rw [tree_eq]
    exact Lexicon.reads_number ((numbers_eq_ok read).2 v (by simp))
  · cases worked

theorem presents_webcam {data : Json}
    (gives : Gives x id webcam data operand)
    (worked : webcam.worker ⟨id.repr, turn⟩ data inputs = .ok produced) :
    Presents x webcam produced (treeOf x.target webcam.name data operand) := by
  obtain ⟨value, given, worked⟩ := Outcome.bind_eq_ok_iff.mp worked
  obtain ⟨xs, read, worked⟩ := Outcome.bind_eq_ok_iff.mp worked
  split at worked
  · rename_i v w
    cases worked
    have finite := (numbers_eq_ok read).2
    have tree_eq : webcamTree x.target data = .sample x.target v w := by
      simp only [webcamTree, numbersIn, given, Outcome.ok_bind, read]
    have stands : x.stands ("tex" ++ "_" ++ id.repr) (webcamTree x.target data) := gives "tex" rfl
    refine presents_single (by simp [webcam, Socket.color]) rfl
      ⟨Lexicon.reads_ref stands, fun t member => ?_⟩
    refine ⟨_, _, _, _, List.mem_singleton.mp member, stands, ?_⟩
    rw [tree_eq]
    exact Lexicon.reads_textureSample (finite v (by simp)) (finite w (by simp))
  · cases worked

/-- Whether a number is written without a sign. -/
def isUnsigned (v : Binary64) : Bool :=
  match v.view with
  | .finite false _ _ => true
  | _ => false

theorem isNumeral_text {v : Binary64} (unsigned : isUnsigned v = true) : IsNumeral v.text := by
  unfold isUnsigned at unsigned
  split at unsigned
  · rename_i view
    unfold Binary64.text Binary64.textIn
    rw [view]
    simpa using isNumeral_decimal _ _
  · cases unsigned

theorem length_square {α : Type} (f : Int → Int → α) (r : Int) :
    ((offsets r).flatMap fun dy => (offsets r).map fun dx => f dx dy).length =
      (2 * r + 1).toNat * (2 * r + 1).toNat := by
  simp [List.length_flatMap, length_offsets]

theorem forall₂_square {α β : Type} {R : α → β → Prop} {f : Int → Int → α} {g : Int → Int → β}
    (r : Int) (related : ∀ dx dy, R (f dx dy) (g dx dy)) :
    List.Forall₂ R ((offsets r).flatMap fun dy => (offsets r).map fun dx => f dx dy)
      ((offsets r).flatMap fun dy => (offsets r).map fun dx => g dx dy) := by
  have same : List.Forall₂ (fun dy dy' : Int => dy = dy') (offsets r) (offsets r) :=
    List.forall₂_same.mpr fun _ _ => rfl
  refine List.rel_flatMap same fun dy dy' here => ?_
  subst here
  rw [List.forall₂_map_left_iff, List.forall₂_map_right_iff, List.forall₂_same]
  exact fun dx _ => related dx dy

theorem presents_boxBlur {seat : Seat} {data : Members}
    (valid : boxBlur.validate (.obj data) = .ok ())
    (worked : boxBlur.worker seat (.obj data) inputs = .ok produced) :
    Presents x boxBlur produced (treeOf x.target boxBlur.name (.obj data) operand) := by
  obtain ⟨r, positive, inRange, read⟩ := exists_radius valid
  have counts : ∀ r ∈ [(0 : Int), 1, 2, 3, 4],
      isUnsigned (smallNumber ((2 * r + 1).toNat * (2 * r + 1).toNat : Nat)) = true := by decide
  have known : r ∈ [(0 : Int), 1, 2, 3, 4] := by
    simp only [maxRadius, List.mem_cons, List.not_mem_nil, or_false] at inRange ⊢
    omega
  simp only [boxBlur, read, Outcome.ok_bind, radiusOf] at worked
  cases worked
  refine presents_single (by simp [boxBlur, Socket.color]) rfl (bears_ofValue ?_)
  have tree_eq : treeOf x.target boxBlur.name (.obj data) operand "color" =
      .binary .divide (.total ((offsets r).flatMap fun dy => (offsets r).map fun dx =>
        Tree.sample x.target (smallNumber dx) (smallNumber dy)))
        (.literal (smallNumber ((2 * r + 1).toNat * (2 * r + 1).toNat : Nat)).text) := by
    simp only [treeOf, boxBlur, blurTree, read, Outcome.ok_bind, radiusOf, length_square]
  rw [tree_eq, blurSum, length_square]
  refine Lexicon.reads_mean (isNumeral_text (counts r known))
    (forall₂_square r fun dx dy => Lexicon.reads_blurSample dx dy) fun none => ?_
  have length :=
    length_square (fun dx dy => Tree.sample x.target (smallNumber dx) (smallNumber dy)) r
  rw [none, List.length_nil, eq_comm, Nat.mul_eq_zero] at length
  omega

end Sources

section Combining

theorem presents_canvas {seat : Seat} {data : Json} (brings : Brings x inputs operand)
    (worked : canvas.worker seat data inputs = .ok produced) :
    Presents x canvas produced (treeOf x.target canvas.name data operand) := by
  cases worked
  exact ⟨by simp [canvas], fun _ => ⟨Inputs.firstOr inputs "color" .black, by simp,
    brings.colorOr "color"⟩⟩

/-- Two values joined by a formula that keeps them whole. -/
theorem bears_joinPair {join : Term → Term → Term} {joinTree : Tree → Tree → Tree}
    (brings : Brings x inputs operand)
    (reads : ∀ a b tree tree', x.Reads (levelOf a) a tree → x.Reads (levelOf b) b tree' →
      x.Reads (levelOf (join a b)) (join a b) (joinTree tree tree')) :
    Bears x (joinPair join inputs) (pairTree joinTree (operand "colorA") (operand "colorB")) := by
  have first := brings "colorA"
  have second := brings "colorB"
  unfold joinPair
  generalize Inputs.first? inputs "colorA" = f at first
  generalize Inputs.first? inputs "colorB" = g at second
  generalize operand "colorA" = a at first
  generalize operand "colorB" = b at second
  cases first with
  | none =>
    cases second with
    | none => exact bears_ofValue reads_black
    | some bears => exact bears
  | @some f a bears =>
    cases second with
    | none => exact bears
    | @some g b bears' =>
      show Bears x (f.combineWith g [] _) _
      rw [Fragment.combineWith_nil]
      refine bears_combine ?_ (reads _ _ _ _ bears.value bears'.value)
      simpa using ⟨bears.explained, bears'.explained⟩

theorem presents_blendColors {seat : Seat} {data : Json} (brings : Brings x inputs operand)
    (worked : blendColors.worker seat data inputs = .ok produced) :
    Presents x blendColors produced (treeOf x.target blendColors.name data operand) := by
  cases worked
  refine presents_single (by simp [blendColors, Socket.color]) rfl (bears_joinPair brings ?_)
  intro a b tree tree' first second
  have count : IsNumeral "2.0" := ⟨'2', ['.', '0'], rfl, rfl, continues_parts rfl⟩
  exact Lexicon.reads_mean count (.cons (first.loosen (product_le_levelOf a))
    (.cons (second.loosen (product_le_levelOf b)) .nil)) (by simp)

theorem presents_multiplyColors {seat : Seat} {data : Json} (brings : Brings x inputs operand)
    (worked : multiplyColors.worker seat data inputs = .ok produced) :
    Presents x multiplyColors produced (treeOf x.target multiplyColors.name data operand) := by
  cases worked
  refine presents_single (by simp [multiplyColors, Socket.color]) rfl (bears_joinPair brings ?_)
  intro a b tree tree' first second
  exact Lexicon.reads_between .times ((Lexicon.reads_group first).loosen (by decide))
    (Lexicon.reads_group second)

theorem presents_mixColors {seat : Seat} {data : Json} (brings : Brings x inputs operand)
    (worked : mixColors.worker seat data inputs = .ok produced) :
    Presents x mixColors produced (treeOf x.target mixColors.name data operand) := by
  cases worked
  have first := brings.colorOr "colorA"
  have second := brings.colorOr "colorB"
  have factor := brings.firstOr "factor"
    (Lexicon.reads_number (isFinite_tenths 5 (by simp)))
  have func : x.target.functionName "mix" = "mix" := by cases x.target <;> rfl
  refine presents_single (by simp [mixColors, Socket.color]) rfl (bears_combine ?_ ?_)
  · simpa using ⟨first.explained, second.explained, factor.explained⟩
  · exact Lexicon.reads_call func rfl
      (.cons (first.value.toSum) (.cons (second.value.toSum)
        (.cons (factor.value.toSum) .nil))) (by simp)

theorem presents_invertColor {data : Json} (brings : Brings x inputs operand)
    (gives : Gives x id invertColor data operand)
    (worked : invertColor.worker ⟨id.repr, turn⟩ data inputs = .ok produced) :
    Presents x invertColor produced (treeOf x.target invertColor.name data operand) := by
  cases worked
  have bears := (brings.colorOr "color").bind (gives "inv" rfl) "vec4"
  have one : IsNumeral "1.0" := ⟨'1', ['.', '0'], rfl, rfl, continues_parts rfl⟩
  have white : Phrase endsOperand .sum "vec3(1.0)" (.call "vec3" [.literal "1.0"]) :=
    (@Phrase.call _ "vec3" ["1.0"] _ rfl (.cons (.numeral one) .nil) (by simp)).mono fun _ _ => rfl
  have rest : x.Reads .product (.swizzle _ "rgb") (.select _ "rgb") :=
    Lexicon.reads_swizzle bears.value rfl
  have kept : x.Reads .sum (.swizzle _ "a") (.select _ "a") := Lexicon.reads_swizzle bears.value rfl
  refine presents_single (by simp [invertColor, Socket.color]) rfl ⟨?_, bears.explained⟩
  exact Lexicon.reads_vec (.cons (Lexicon.reads_behind .minus white (fun _ _ => by simp) rest)
    (.cons kept .nil)) (by simp)

theorem presents_splitColor {data : Json} (brings : Brings x inputs operand)
    (gives : Gives x id splitColor data operand)
    (worked : splitColor.worker ⟨id.repr, turn⟩ data inputs = .ok produced) :
    Presents x splitColor produced (treeOf x.target splitColor.name data operand) := by
  cases worked
  have bears := (brings.colorOr "color").bind (gives "split" rfl) "vec4"
  have each : ∀ key, isWord key.toList = true → Bears x (Fragment.withValue _ (.swizzle _ key))
      (.select ((operand "color").getD blackTree) key) := fun key word =>
    ⟨Lexicon.reads_swizzle bears.value word, bears.explained⟩
  refine ⟨fun s member => ?_, by simp [splitColor]⟩
  simp only [splitColor, channels, List.map_cons, List.map_nil, List.mem_cons, List.not_mem_nil,
    or_false] at member
  rcases member with rfl | rfl | rfl | rfl
  · exact ⟨_, rfl, each "r" rfl⟩
  · exact ⟨_, rfl, each "g" rfl⟩
  · exact ⟨_, rfl, each "b" rfl⟩
  · exact ⟨_, rfl, each "a" rfl⟩

theorem presents_joinColor {seat : Seat} {data : Json} (brings : Brings x inputs operand)
    (worked : joinColor.worker seat data inputs = .ok produced) :
    Presents x joinColor produced (treeOf x.target joinColor.name data operand) := by
  cases worked
  have each : ∀ channel, Bears x (Inputs.firstOr inputs channel (channelDefault channel))
      ((operand channel).getD (.ofNumber (channelNumber channel))) := by
    intro channel
    refine brings.firstOr channel (Lexicon.reads_number ?_)
    split <;> exact isFinite_tenths _ (by simp)
  refine presents_single (by simp [joinColor, Socket.color]) rfl (bears_combine ?_ ?_)
  · intro f member
    obtain ⟨channel, _, rfl⟩ := List.mem_map.mp member
    exact (each channel).explained
  · refine Lexicon.reads_vec ?_ (by simp [channels])
    rw [List.map_map, List.forall₂_map_left_iff, List.forall₂_map_right_iff, List.forall₂_same]
    exact fun channel _ => (each channel).value.toSum

end Combining

/-- Whatever a worker of a builtin kind writes is read as the tree of its kind. -/
theorem presents_builtin {k : Kind} (builtin : k ∈ Registry.builtinKinds) {data : Members}
    (valid : k.validate (.obj data) = .ok ()) (brings : Brings x inputs operand)
    (gives : Gives x id k (.obj data) operand)
    (worked : k.worker ⟨id.repr, turn⟩ (.obj data) inputs = .ok produced) :
    Presents x k produced (treeOf x.target k.name (.obj data) operand) := by
  simp only [Registry.builtinKinds, List.mem_cons, List.not_mem_nil, or_false] at builtin
  rcases builtin with rfl | rfl | rfl | rfl | rfl | rfl | rfl | rfl | rfl | rfl | rfl | rfl
  · exact presents_canvas brings worked
  · exact presents_webcam gives worked
  · exact presents_coolColor worked
  · exact presents_blendColors brings worked
  · exact presents_constantColor worked
  · exact presents_constantNumber worked
  · exact presents_boxBlur valid worked
  · exact presents_multiplyColors brings worked
  · exact presents_mixColors brings worked
  · exact presents_invertColor brings gives worked
  · exact presents_splitColor brings gives worked
  · exact presents_joinColor brings worked

end Kind

end ShaderFlow
