import ShaderFlow.Proofs.Graph.RoundTrip

set_option autoImplicit false

/-
A loaded graph has its links by the nodes and inputs they enter. So the links out of each output
come by ascending target, and by input at one target, whatever their order was when they were saved.
A graph and what its document loads have the same document exactly if the links were in this order
before.
-/

namespace ShaderFlow.Graph

variable {g h : Graph Int}

section Order

/-- The place of the input that a link enters, among those of its target. -/
def inputPlace (g : Graph Int) (l : Link Int) : Nat :=
  ((g.find? l.target).elim [] g.inputKeys).idxOf l.input

/-- A link enters a smaller node than another one, or an earlier input of the same node. -/
def Before (g : Graph Int) (l m : Link Int) : Prop :=
  l.target < m.target ∨ l.target = m.target ∧ g.inputPlace l < g.inputPlace m

instance (g : Graph Int) (l m : Link Int) : Decidable (g.Before l m) :=
  inferInstanceAs (Decidable (_ ∨ _))

/-- The links out of every output are in the order of what they enter. -/
def InTargetOrder (g : Graph Int) : Prop :=
  ∀ id output, (g.linksOutOf id output).Pairwise g.Before

theorem mem_linksOutOf {id : Int} {output : String} {l : Link Int} :
    l ∈ g.linksOutOf id output ↔ l ∈ g.links ∧ l.source = id ∧ l.output = output := by
  simp [linksOutOf]

/-- Links are in one order only. -/
theorem eq_of_perm_of_before {ls ms : List (Link Int)} (perm : ls.Perm ms)
    (sorted : ls.Pairwise g.Before) (sorted' : ms.Pairwise g.Before) : ls = ms := by
  refine List.Perm.eq_of_pairwise (fun l m _ _ first second => ?_) sorted sorted' perm
  unfold Before at first second
  omega

theorem inputPlace_eq (sound : g.Sound) {n : Node Int} (member : n ∈ g.nodes) {l : Link Int}
    (target : l.target = n.id) : g.inputPlace l = (g.inputKeys n).idxOf l.input := by
  rw [inputPlace, target, find?_eq_some sound member, Option.elim_some]

theorem pairwise_idxOf {keys : List String} (nodup : keys.Nodup) :
    keys.Pairwise fun a b => keys.idxOf a < keys.idxOf b := by
  refine List.pairwise_iff_getElem.mpr fun i j first second below => ?_
  rwa [nodup.idxOf_getElem, nodup.idxOf_getElem]

theorem pairwise_entering (sound : g.Sound) {n : Node Int} (member : n ∈ g.nodes) :
    (g.entering n).Pairwise fun l m => g.Before l m ∨ l.target = m.target ∧ l.input = m.input := by
  refine List.pairwise_flatMap.mpr ⟨fun key _ => ?_, ?_⟩
  · refine List.pairwise_of_forall_mem_list fun l first m second => .inr ?_
    obtain ⟨-, target, input⟩ := mem_linksInto.mp first
    obtain ⟨-, target', input'⟩ := mem_linksInto.mp second
    exact ⟨target.trans target'.symm, input.trans input'.symm⟩
  · refine (pairwise_idxOf (g.nodup_inputKeys n)).imp fun below l first m second => .inl (.inr ?_)
    obtain ⟨-, target, rfl⟩ := mem_linksInto.mp first
    obtain ⟨-, target', rfl⟩ := mem_linksInto.mp second
    rw [inputPlace_eq sound member target, inputPlace_eq sound member target']
    exact ⟨target.trans target'.symm, below⟩

/-- Saved links are by target and input, and only those into one input may be in any order. -/
theorem pairwise_savedLinks (sound : g.Sound) :
    g.savedLinks.Pairwise fun l m => g.Before l m ∨ l.target = m.target ∧ l.input = m.input := by
  refine List.pairwise_flatMap.mpr ⟨fun n member =>
    pairwise_entering sound ((mem_ascending n).mp member), ?_⟩
  refine (restores_restored sound 0).ascending.imp fun below l first m second => .inl (.inl ?_)
  rw [(mem_entering.mp first).2.1, (mem_entering.mp second).2.1]
  exact below

end Order

section Reloading

theorem perm_savedLinks (sound : g.Sound) : g.savedLinks.Perm g.links :=
  (List.perm_ext_iff_of_nodup (nodup_savedLinks sound) sound.linksNodup).mpr (mem_savedLinks sound)

/-- Loading keeps the links out of each output, up to their order. -/
theorem perm_linksOutOf_restored (sound : g.Sound) (readings : Nat) (id : Int) (output : String) :
    ((g.restored readings).linksOutOf id output).Perm (g.linksOutOf id output) :=
  (perm_savedLinks sound).filter _

theorem before_restored (sound : g.Sound) (readings : Nat) (l m : Link Int) :
    (g.restored readings).Before l m ↔ g.Before l m := by
  have place : (g.restored readings).inputPlace = g.inputPlace := by
    funext l
    rw [inputPlace, find?_restored sound readings]
    rfl
  rw [Before, place, Before]

theorem pairwise_linksOutOf_restored (sound : g.Sound) (readings : Nat) (id : Int)
    (output : String) : ((g.restored readings).linksOutOf id output).Pairwise g.Before := by
  -- two links out of one output into one input would be the same link
  refine ((List.pairwise_and_iff.mpr ⟨pairwise_savedLinks sound, nodup_savedLinks sound⟩).filter
    _).imp_of_mem fun {l m} first second both => ?_
  obtain ⟨-, source, out⟩ := (mem_linksOutOf (g := g.restored readings)).mp first
  obtain ⟨-, source', out'⟩ := (mem_linksOutOf (g := g.restored readings)).mp second
  obtain ⟨before | ⟨target, input⟩, different⟩ := both
  · exact before
  · refine absurd ?_ different
    cases l
    cases m
    exact (Link.mk.injEq ..).mpr ⟨source.trans source'.symm, out.trans out'.symm, target, input⟩

theorem inTargetOrder_restored (sound : g.Sound) (readings : Nat) :
    (g.restored readings).InTargetOrder := fun id output =>
  (pairwise_linksOutOf_restored sound readings id output).imp
    (before_restored sound readings _ _).mpr

/-- Loading leaves the links out of each output as they are if they are in order, and puts them in
order otherwise. -/
theorem linksOutOf_restored_iff (sound : g.Sound) (readings : Nat) :
    (∀ id output, (g.restored readings).linksOutOf id output = g.linksOutOf id output) ↔
      g.InTargetOrder := by
  refine forall₂_congr fun id output => ⟨fun same => ?_, fun sorted => ?_⟩
  · rw [← same]
    exact pairwise_linksOutOf_restored sound readings id output
  · exact eq_of_perm_of_before (perm_linksOutOf_restored sound readings id output)
      (pairwise_linksOutOf_restored sound readings id output) sorted

end Reloading

section Documents

/-- A link leaves a declared output of a node. -/
theorem Joins.exists_output {l : Link Int} (joins : g.Joins l) :
    ∃ n ∈ g.nodes, l.source = n.id ∧ l.output ∈ g.outputKeys n := by
  obtain ⟨k, _, o, _, ⟨n, member, source, found⟩, _, isOutput, _⟩ := joins
  refine ⟨n, member, source.symm, ?_⟩
  have named : o.key = l.output := by simpa using List.find?_some isOutput
  rw [outputKeys, found, Option.elim_some, mem_socketKeys, ← named]
  exact List.mem_map_of_mem (List.mem_of_find?_eq_some isOutput)

/-- The entry of a link tells which link out of the output it is. -/
theorem map_linkEntry_inj {id : Int} {output : String} {ls ms : List (Link Int)}
    (first : ∀ l ∈ ls, l.source = id ∧ l.output = output)
    (second : ∀ l ∈ ms, l.source = id ∧ l.output = output)
    (same : (ls.map fun l => linkEntry l.target "input" l.input) =
      ms.map fun l => linkEntry l.target "input" l.input) : ls = ms := by
  have restore : ∀ {ns : List (Link Int)}, (∀ l ∈ ns, l.source = id ∧ l.output = output) →
      (ns.map fun l => (l.target, l.input)).map
        (fun entered : Int × String => (⟨id, output, entered.1, entered.2⟩ : Link Int)) = ns := by
    intro ns each
    rw [List.map_map]
    refine (List.map_congr_left fun l member => ?_).trans (List.map_id ns)
    obtain ⟨rfl, rfl⟩ := each l member
    rfl
  have entered : (ls.map fun l => (l.target, l.input)) = ms.map fun l => (l.target, l.input) := by
    refine (List.map_inj_right (f := fun entered : Int × String =>
      linkEntry entered.1 "input" entered.2) fun a b same => ?_).mp ?_
    · simpa [linkEntry, NodeId.toJson, Prod.ext_iff] using same
    · simpa [List.map_map, Function.comp_def] using same
  rw [← restore first, ← restore second, entered]

theorem savedOutputs_eq_iff {n : Node Int} (keys : h.outputKeys n = g.outputKeys n) :
    h.savedOutputs n = g.savedOutputs n ↔
      ∀ output ∈ g.outputKeys n, h.linksOutOf n.id output = g.linksOutOf n.id output := by
  rw [savedOutputs, savedOutputs, keys, valued, valued, List.map_inj_left]
  refine forall₂_congr fun output _ => ⟨fun same => ?_, fun same => by rw [same]⟩
  refine map_linkEntry_inj (fun l member => (mem_linksOutOf.mp member).2)
    (fun l member => (mem_linksOutOf.mp member).2) ?_
  simpa using same

theorem savedInputs_restored (sound : g.Sound) (readings : Nat) (n : Node Int) :
    (g.restored readings).savedInputs n = g.savedInputs n := by
  have links : (g.restored readings).linksInto n.id = g.linksInto n.id :=
    funext (linksInto_restored sound readings n.id)
  rw [savedInputs, links]
  rfl

theorem savedEntry_restored_iff (sound : g.Sound) (readings : Nat) {n : Node Int}
    (member : n ∈ g.nodes) :
    (g.restored readings).savedEntry n = g.savedEntry n ↔
      ∀ output ∈ g.outputKeys n,
        (g.restored readings).linksOutOf n.id output = g.linksOutOf n.id output := by
  obtain ⟨k, found, _⟩ := sound.accepts n member
  have found' : (g.restored readings).registry.find? n.kind = some k := found
  have outputs := savedOutputs_eq_iff (g := g) (h := g.restored readings) (n := n) rfl
  rw [savedEntry_eq found, savedEntry_eq found', savedInputs_restored sound readings, ← outputs]
  simp

/-- What a document loads has the same document exactly if the links were in order. -/
theorem savedForm_restored_iff (sound : g.Sound) (readings : Nat) :
    (g.restored readings).savedForm = g.savedForm ↔ g.InTargetOrder := by
  have entries : (g.restored readings).savedForm = g.savedForm ↔
      ∀ n ∈ g.ascending, (g.restored readings).savedEntry n = g.savedEntry n := by
    rw [savedForm, savedForm, savedEntries, savedEntries, ascending_restored]
    simp
  rw [entries, ← linksOutOf_restored_iff sound readings]
  constructor
  · intro same id output
    by_cases declared : ∃ n ∈ g.nodes, id = n.id ∧ output ∈ g.outputKeys n
    · obtain ⟨n, member, rfl, key⟩ := declared
      exact (savedEntry_restored_iff sound readings member).mp
        (same n ((mem_ascending n).mpr member)) output key
    · have none : g.linksOutOf id output = [] := by
        refine List.eq_nil_iff_forall_not_mem.mpr fun l inside => declared ?_
        obtain ⟨present, rfl, rfl⟩ := mem_linksOutOf.mp inside
        exact (sound.joins l present).exists_output
      rw [none]
      exact List.perm_nil.mp (none ▸ perm_linksOutOf_restored sound readings id output)
  · intro same n member
    exact (savedEntry_restored_iff sound readings ((mem_ascending n).mp member)).mpr
      fun output _ => same n.id output

end Documents

section Stability

/-- Loading a document and saving again gives a document, and so on from there without a change. -/
structure Resaves (registry : Registry) (document : Json) (h : Graph Int) (again : Json) :
    Prop where
  loads : (ofDocument registry document).outcome = .ok h
  saves : h.toDocument = .ok again
  stable : ∃ h' : Graph Int, (ofDocument registry again).outcome = .ok h' ∧
    h'.toDocument = .ok again

theorem resaves_savedForm (sound : g.Sound) (restorable : ∀ n ∈ g.nodes, g.Restorable n)
    (writable : ∀ id ∈ g.ids, Writable id) :
    Resaves g.registry g.savedForm (g.restored 0) (g.restored 0).savedForm := by
  have again := sound_restored sound 0
  have short : ∀ id ∈ (g.restored 0).ids, Writable id := fun id member =>
    writable id ((g.mem_ascending_ids id).mp member)
  have both : ∀ n ∈ (g.restored 0).nodes, (g.restored 0).Restorable n := fun n member =>
    restorable n ((mem_ascending n).mp member)
  have third := sound_restored again 0
  have fixed := (savedForm_restored_iff again 0).mpr (inTargetOrder_restored sound 0)
  refine ⟨ofDocument_savedForm sound restorable writable, toDocument_of_writable again short,
    (g.restored 0).restored 0, ofDocument_savedForm again both short, ?_⟩
  rw [← fixed]
  exact toDocument_of_writable third fun id member =>
    short id (((g.restored 0).mem_ascending_ids id).mp member)

/-- A graph that edits made, and what its document loads, have the same document exactly if the
links out of every output are in the order of what they enter. Loading puts them in this order,
keeps all other lists as they are, and from then on the document stays the same. A graph with an id
that cannot be written has no document. -/
theorem resaved_iff_inTargetOrder (registry : Registry)
    (distinct : ∀ k ∈ registry.kinds, (Members.names k.defaultData).Nodup) (edits : List Edit) :
    ((∀ id ∈ (run { registry } edits).ids, Writable id) →
      ∃ document h again, (run { registry } edits).toDocument = .ok document ∧
        Resaves registry document h again ∧
        (again = document ↔ (run { registry } edits).InTargetOrder) ∧
        (∀ id output,
          (h.linksOutOf id output).Perm ((run { registry } edits).linksOutOf id output)) ∧
        (∀ id output, (h.linksOutOf id output).Pairwise (run { registry } edits).Before) ∧
        h.Restores (run { registry } edits)) ∧
      ((∃ id ∈ (run { registry } edits).ids, ¬ Writable id) →
        (run { registry } edits).toDocument = .error unwritable) ∧
      ∀ g, runAccepted { registry } edits = .ok g →
        g = run { registry } edits ∧ ∀ id ∈ g.ids, Writable id := by
  have sound : (run { registry } edits).Sound := sound_run (.empty _ _) edits
  have same : (run { registry } edits).registry = registry := registry_run { registry } edits
  have restorable : ∀ n ∈ (run { registry } edits).nodes, (run { registry } edits).Restorable n :=
    fun n member => (completed_run registry edits n member).restorable (sound.accepts n member)
      (by rwa [same])
  refine ⟨fun writable => ?_, toDocument_of_unwritable sound,
    fun g => runAccepted_eq_ok fun _ member => absurd member List.not_mem_nil⟩
  have resaves := resaves_savedForm sound restorable writable
  rw [same] at resaves
  exact ⟨_, _, _, toDocument_of_writable sound writable, resaves, savedForm_restored_iff sound 0,
    perm_linksOutOf_restored sound 0, pairwise_linksOutOf_restored sound 0,
    restores_restored sound 0⟩

/-- A source that was joined to the larger of two nodes first. -/
def crossed : List Edit :=
  [.add (.str "Webcam") (.arr [.int 0, .int 0]) (.obj []) (some 1),
    .add (.str "Canvas") (.arr [.int 0, .int 0]) (.obj []) (some 2),
    .add (.str "Canvas") (.arr [.int 0, .int 0]) (.obj []) (some 3),
    .connect (.ofLink ⟨1, "color", 3, "color"⟩), .connect (.ofLink ⟨1, "color", 2, "color"⟩)]

theorem resaved_iff_inTargetOrder_crossed :
    (∀ k ∈ Registry.builtin.kinds, (Members.names k.defaultData).Nodup) ∧
      (run {} crossed).linksOutOf 1 "color" = [⟨1, "color", 3, "color"⟩, ⟨1, "color", 2, "color"⟩] ∧
      (∃ document h again, (run {} crossed).toDocument = .ok document ∧
        Resaves .builtin document h again ∧ again ≠ document ∧
        h.linksOutOf 1 "color" = [⟨1, "color", 2, "color"⟩, ⟨1, "color", 3, "color"⟩]) ∧
      (run {} longIds).toDocument = .error unwritable := by
  have distinct : ∀ k ∈ Registry.builtin.kinds, (Members.names k.defaultData).Nodup := by
    decide +kernel
  have accepted : (runAccepted {} crossed).isOk = true := by decide +kernel
  have links : (run {} crossed).linksOutOf 1 "color" =
      [⟨1, "color", 3, "color"⟩, ⟨1, "color", 2, "color"⟩] := by decide +kernel
  have unordered : ¬ (run {} crossed).InTargetOrder := fun order => by
    have pair := order 1 "color"
    rw [links] at pair
    exact absurd pair (by decide +kernel)
  have turned : [⟨1, "color", 2, "color"⟩, ⟨1, "color", 3, "color"⟩].Pairwise
      (run {} crossed).Before := by decide +kernel
  have long : ∃ id ∈ (run {} longIds).ids, ¬ Writable id :=
    ⟨Json.integerBound, by decide +kernel, not_writable_integerBound⟩
  obtain ⟨each, -, made⟩ := resaved_iff_inTargetOrder .builtin distinct crossed
  have writable : ∀ id ∈ (run {} crossed).ids, Writable id := by
    cases answer : runAccepted {} crossed with
    | error e =>
      rw [answer] at accepted
      cases accepted
    | ok g =>
      obtain ⟨rfl, short⟩ := made g answer
      exact short
  obtain ⟨document, h, again, saved, resaves, iff, perm, sorted, -⟩ := each writable
  refine ⟨distinct, links, ⟨document, h, again, saved, resaves, fun same => unordered (iff.mp same),
    ?_⟩, (resaved_iff_inTargetOrder .builtin distinct longIds).2.1 long⟩
  refine eq_of_perm_of_before ((perm 1 "color").trans ?_) (sorted 1 "color") turned
  rw [links]
  exact List.Perm.swap _ _ _

end Stability

end ShaderFlow.Graph
