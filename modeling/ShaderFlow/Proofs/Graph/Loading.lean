import ShaderFlow.Proofs.Graph.Document
import ShaderFlow.Proofs.Json.Fault

set_option autoImplicit false

namespace ShaderFlow

open Outcome

namespace Outcome

variable {α β γ : Type} {E : Error → Prop}

theorem mapM_snoc {f : α → Except Error β} {xs : List α} {ys : List β} {x : α} {y : β}
    (front : xs.mapM f = .ok ys) (last : f x = .ok y) : (xs ++ [x]).mapM f = .ok (ys ++ [y]) := by
  rw [List.mapM_append, front, List.mapM_cons, last]
  rfl

theorem mapM_mem {f : α → Except Error β} {xs : List α} {ys : List β}
    (success : xs.mapM f = .ok ys) {x : α} (member : x ∈ xs) : ∃ y ∈ ys, f x = .ok y :=
  exists_of_forall₂ (mapM_eq_ok_iff.mp success).flip member

/-- A loop that reads each item has read them all in the end. -/
theorem Yields.foldlM_reading {R : β → List γ → Prop} {read : α → Except Error γ}
    {f : β → α → Except Error β} {b : β} (start : R b [])
    (step : ∀ b a cs, R b cs → Yields E (fun b' => ∃ c, read a = .ok c ∧ R b' (cs ++ [c])) (f b a))
    (xs : List α) :
    Yields E (fun b' => ∃ cs, xs.mapM read = .ok cs ∧ R b' cs) (xs.foldlM f b) := by
  refine Yields.foldlM (I := fun done b' => ∃ cs, done.mapM read = .ok cs ∧ R b' cs)
    ⟨[], rfl, start⟩ ?_ xs
  rintro done b a ⟨cs, front, holds⟩
  refine (step b a cs holds).mono (fun _ cause => cause) ?_
  rintro b' ⟨c, last, holds⟩
  exact ⟨cs ++ [c], mapM_snoc front last, holds⟩

end Outcome

/-- The check of each kind fails only in ways that show a fault of the data. -/
def Registry.Checks (r : Registry) : Prop :=
  ∀ k ∈ r.kinds, ∀ data e, k.validate (.obj data) = .error e → e.isDocumentFault = true

namespace Document

open ShaderFlow.Graph

section Description

/-- A value is read as a number. One NaN may stand for another. -/
def Reads (v : Json) (x : Binary64) : Prop :=
  ∃ y, v.toNumber = .ok y ∧ (x = y ∨ y.isNan = true ∧ x.isNan = true)

/-- The id that an entry gives. -/
def entryId (entry : Json) : Except Error Int := do (← entry.member "id").toInteger

/-- An entry with its key describes a node: both give its id, and its data are those of the kind
with the entry's put in. -/
structure Describes (registry : Registry) (entry : String × Json) (n : Node Int) : Prop where
  key : (Json.str entry.1).toInteger = .ok n.id
  id : entryId entry.2 = .ok n.id
  kind : entry.2.member "name" = .ok (.str n.kind)
  data : ∃ k changes, registry.find? n.kind = some k ∧
    memberOr entry.2 "data" (.obj []) = .obj changes ∧ n.data = k.defaultData.merge changes
  position : ∃ x y, (memberOr entry.2 "position" (.arr [.int 0, .int 0])).pair = .ok (x, y) ∧
    Reads x n.position.x ∧ Reads y n.position.y

/-- A link as it is listed at one end: the socket there, and the node and socket at the other. -/
structure Listed where
  key : String
  node : Int
  name : Json

/-- The links that the entry of a socket lists. -/
def listed (side key : String) (socket : Json) : Except Error (List Listed) := do
  (← (← socket.member "connections").items).mapM fun link => do
    let other ← readLink link side
    return ⟨key, other.1, other.2⟩

/-- The links that an entry lists at all its inputs, or at all its outputs. -/
def listedAt (sockets side : String) (entry : Json) : Except Error (List Listed) := do
  let members ← (memberOr entry sockets (.obj [])).membersOf
  let lists ← members.mapM fun m => listed side m.1 m.2
  return lists.flatten

/-- A link into a node, as it is listed there. -/
def Listed.into (id : Int) (l : Listed) : Declaration Int := ⟨l.node, l.name, id, .str l.key⟩

/-- A link out of a node, as it is listed there. -/
def Listed.outOf (id : Int) (l : Listed) : Declaration Int := ⟨id, .str l.key, l.node, l.name⟩

/-- The links that an entry declares. -/
structure Declarations where
  inputs : List (Declaration Int)
  outputs : List (Declaration Int)

def declarations (entry : Json) : Except Error Declarations := do
  let id ← entryId entry
  let inputs ← listedAt "inputs" "output" entry
  let outputs ← listedAt "outputs" "input" entry
  return ⟨inputs.map (·.into id), outputs.map (·.outOf id)⟩

/-- A declaration is that of a link of the graph. -/
def Holds (g : Graph Int) (d : Declaration Int) : Prop := ∃ l ∈ g.links, d = .ofLink l

/-- The entries of a document are those of the nodes, and its links those declared at the inputs,
among which are those declared at the outputs. -/
structure DescribedBy (g : Graph Int) (entries : Members) : Prop where
  nodes : List.Forall₂ (Describes g.registry) entries g.nodes
  links : ∃ declared, entries.mapM (fun e => declarations e.2) = .ok declared ∧
    (∀ d, Holds g d ↔ d ∈ declared.flatMap (·.inputs)) ∧
    ∀ d ∈ declared.flatMap (·.outputs), Holds g d

/-- A document of a known form has these entries. -/
def HasEntries (document : Json) (entries : Members) : Prop :=
  ∃ members id, document = .obj members ∧ Members.get? members "id" = some (.str id) ∧
    id.startsWith idHead = true ∧ Members.get? members "nodes" = some (.obj entries)

end Description

section Nodes

variable {g : Graph Int}

/-- What loading may fail with. -/
def Refuses (e : Error) : Prop := e.isMalformed = true ∨ e.isDocumentFault = true

theorem refuses_of_faults {α : Type} {work : Except Error α} (faults : Faults work) :
    Yields Refuses (fun a => work = .ok a) work :=
  faults.self.mono (fun _ => .inr) fun _ same => same

theorem isNan_otherNan (tag : Nat) : (Binary64.otherNan tag).isNan = true := by
  have p50 : Nat.pow 2 50 = 1125899906842624 := rfl
  have p51 : Nat.pow 2 51 = 2251799813685248 := rfl
  have p52 : Nat.pow 2 52 = 4503599627370496 := rfl
  have word : (Binary64.otherNan tag).bits.toNat =
      2047 * Nat.pow 2 52 + Nat.pow 2 51 + 1 + tag % Nat.pow 2 50 := by
    show (UInt64.ofNat _).toNat = _
    rw [UInt64.toNat_ofNat']
    simp only [Bool.false_eq_true, if_false, p50, p51, p52]
    omega
  have field : (Binary64.otherNan tag).bits.toNat / Nat.pow 2 52 % Nat.pow 2 11 = 2047 := by
    rw [word, p50, p51, p52, show Nat.pow 2 11 = 2048 from rfl]
    omega
  have fraction : (Binary64.otherNan tag).bits.toNat % Nat.pow 2 52 ≠ 0 := by
    rw [word, p50, p51, p52]
    omega
  rw [Binary64.isNan, Binary64.view, if_pos field, if_neg fraction]
  rfl

theorem yields_toOwnNumber (tag : Nat) (v : Json) :
    Yields Refuses (Reads v) (v.toOwnNumber tag) := by
  refine (refuses_of_faults v.faults_toNumber).bind fun x read => ?_
  split
  · refine .ok ⟨x, read, ?_⟩
    unfold Binary64.own
    split
    · rename_i nan
      exact .inr ⟨nan, isNan_otherNan tag⟩
    · exact .inl rfl
  · exact .ok ⟨x, read, .inl rfl⟩

theorem yields_position (reading : Nat) (v : Json) :
    Yields Refuses (fun p : Position => ∃ x y, v.pair = .ok (x, y) ∧ Reads x p.x ∧ Reads y p.y)
      (Position.ofJson reading v) := by
  refine (refuses_of_faults v.faults_pair).bind ?_
  rintro ⟨x, y⟩ pair
  refine (yields_toOwnNumber (2 * reading) x).bind fun a first => ?_
  refine (yields_toOwnNumber (2 * reading + 1) y).bind fun b second => ?_
  exact .ok ⟨x, y, pair, first, second⟩

theorem faults_get (r : Registry) (v : Json) : Faults (r.get v) := by
  refine v.faults_asLabel.bind fun label _ => ?_
  split
  · split
    · exact .ok trivial
    · exact .error rfl
  · exact .error rfl

theorem faults_validate {r : Registry} (checks : r.Checks) {k : Kind} (known : k ∈ r.kinds)
    (data : Members) : Faults (k.validate (.obj data)) := by
  cases checked : k.validate (.obj data) with
  | ok => exact .ok trivial
  | error e => exact .error (checks k known data e checked)

theorem faults_newId (g : Graph Int) (id : Int) : Faults (g.newId (some id)) := by
  refine Yields.bind (P := fun _ => True) (.ok trivial) fun _ _ => ?_
  split
  · exact (Json.faults_checkWritable _).bind fun _ _ => .error rfl
  · exact .ok trivial

theorem update_obj (defaults changes : Members) :
    defaults.update (.obj changes) = .ok (defaults.merge changes) := by
  cases changes with
  | nil => rfl
  | cons => rfl

/-- A new node is the one that was described, or the description has a fault. -/
theorem yields_newNode (checks : g.registry.Checks) (kind position : Json) (changes : Members)
    (id : Int) :
    Yields Refuses (fun n => n.id = id ∧ kind = .str n.kind ∧
      (∃ k, g.registry.find? n.kind = some k ∧ n.data = k.defaultData.merge changes) ∧
      ∃ x y, position.pair = .ok (x, y) ∧ Reads x n.position.x ∧ Reads y n.position.y)
      (g.newNode kind position (.obj changes) (some id)) := by
  refine (refuses_of_faults (faults_get g.registry kind)).bind fun k got => ?_
  obtain ⟨name, rfl, found, rfl⟩ := get_eq_ok got
  rw [update_obj, Outcome.ok_bind]
  have known : k ∈ g.registry.kinds := List.mem_of_find?_eq_some found
  refine (refuses_of_faults (faults_validate checks known _)).bind fun _ _ => ?_
  refine (refuses_of_faults (faults_newId g id)).bind fun id' free => ?_
  have same : id' = id := by
    simp only [newId, NodeId.check, Outcome.ok_bind] at free
    split at free
    · obtain ⟨_, _, failed⟩ := Outcome.bind_eq_ok_iff.mp free
      cases failed
    · cases free
      rfl
  refine (yields_position g.readings position).bind fun p placed => ?_
  exact .ok ⟨same, rfl, ⟨k, found, rfl⟩, placed⟩

theorem yields_addNode (checks : g.registry.Checks) (kind position : Json) (changes : Members)
    (id : Int) :
    Yields Refuses (fun n => (n.id = id ∧ kind = .str n.kind ∧
      (∃ k, g.registry.find? n.kind = some k ∧ n.data = k.defaultData.merge changes) ∧
      ∃ x y, position.pair = .ok (x, y) ∧ Reads x n.position.x ∧ Reads y n.position.y) ∧
      (g.addNode kind position (.obj changes) (some id)).1 =
        { g with nodes := g.nodes ++ [n], readings := g.readings + 1 })
      (g.addNode kind position (.obj changes) (some id)).2.outcome := by
  have new := yields_newNode checks kind position changes id
  cases made : g.newNode kind position (.obj changes) (some id) with
  | error e =>
    rw [made] at new
    simp only [addNode, made]
    cases new with
    | error cause => exact .error cause
  | ok n =>
    rw [made] at new
    have described := new.value
    obtain ⟨added, reported⟩ := addNode_of_new made
    rw [reported, ← writing_single]
    refine (refuses_of_faults (Json.int n.id).faults_checkWritable).bind fun _ _ => ?_
    exact .ok ⟨described, added⟩

theorem yields_loadNode (checks : g.registry.Checks) (key : String) (entry : Json) :
    Yields Refuses (fun g' => ∃ n, Describes g.registry (key, entry) n ∧
      g' = { g with nodes := g.nodes ++ [n], readings := g.readings + 1 })
      (g.loadNode key entry).outcome := by
  simp only [loadNode, Logged.outcome_bind, Logged.outcome_liftM]
  refine (refuses_of_faults (entry.faults_member "id")).bind fun v given => ?_
  refine (refuses_of_faults v.faults_toInteger).bind fun id read => ?_
  refine (refuses_of_faults (Json.str key).faults_toInteger).bind fun keyId keyed => ?_
  have named : entryId entry = .ok id := by rw [entryId, given, Outcome.ok_bind, read]
  split
  · simp only [Logged.outcome_bind, Logged.outcome_liftM]
    refine (refuses_of_faults (Json.int id).faults_checkWritable).bind fun _ _ => ?_
    exact .error (.inl rfl)
  · rename_i agrees
    obtain rfl : keyId = id := by simpa using agrees
    split
    · rename_i changes data
      simp only [Logged.outcome_bind, Logged.outcome_liftM]
      refine (refuses_of_faults (entry.faults_member "name")).bind fun kind labelled => ?_
      refine (yields_addNode checks kind _ changes keyId).bind ?_
      rintro n ⟨⟨rfl, rfl, ⟨k, found, merged⟩, placed⟩, added⟩
      exact .ok ⟨n, ⟨keyed, named, labelled, ⟨k, changes, found, data, merged⟩, placed⟩, added⟩
    · exact .error (.inl rfl)

/-- The nodes of all entries are added in turn. -/
theorem yields_loadNodes (checks : g.registry.Checks) (bare : g.nodes = []) (entries : Members) :
    Yields Refuses (fun g' : Graph Int => g'.registry = g.registry ∧ g'.links = g.links ∧
      List.Forall₂ (Describes g.registry) entries g'.nodes)
      (entries.foldlM (fun (g : Graph Int) (entry : String × Json) => g.loadNode entry.1 entry.2)
        g).outcome := by
  rw [Logged.outcome_foldlM]
  refine Yields.foldlM
    (I := fun done (g' : Graph Int) => g'.registry = g.registry ∧ g'.links = g.links ∧
      List.Forall₂ (Describes g.registry) done g'.nodes)
    ⟨rfl, rfl, by rw [bare]; exact .nil⟩ ?_ entries
  rintro done g' ⟨key, entry⟩ ⟨registry, links, described⟩
  refine (yields_loadNode (registry ▸ checks) key entry).mono (fun _ cause => cause) ?_
  rintro g'' ⟨n, describes, rfl⟩
  exact ⟨registry, links, List.rel_append described (.cons (registry ▸ describes) .nil)⟩

end Nodes

section Links

variable {g g' g'' : Graph Int}

/-- The second graph is the first with declared links put in. -/
structure Gains (g g' : Graph Int) (declared : List (Declaration Int)) : Prop where
  registry : g'.registry = g.registry
  nodes : g'.nodes = g.nodes
  holds : ∀ d, Holds g' d ↔ Holds g d ∨ d ∈ declared

theorem Gains.refl (g : Graph Int) : Gains g g [] := ⟨rfl, rfl, by simp⟩

theorem Gains.append {first second : List (Declaration Int)} (gains : Gains g g' first)
    (gains' : Gains g' g'' second) : Gains g g'' (first ++ second) where
  registry := gains'.registry.trans gains.registry
  nodes := gains'.nodes.trans gains.nodes
  holds := by
    intro d
    rw [gains'.holds, gains.holds, List.mem_append, or_assoc]

theorem faults_node (g : Graph Int) (id : Int) : Faults (g.node id) := by
  refine Yields.bind (P := fun _ => True) (.ok trivial) fun _ _ => ?_
  split
  · exact .ok trivial
  · exact (Json.int id).faults_checkWritable.bind fun _ _ => .error rfl

theorem yields_outputSocket (k : Kind) (name : Json) :
    Yields Refuses (fun s => name = .str s.key) (outputSocket k name) := by
  unfold outputSocket
  split
  · rename_i s
    cases found : k.output? s with
    | none => exact .error (.inr rfl)
    | some socket =>
      have key : socket.key = s := by simpa using List.find?_some found
      exact .ok (by rw [key])
  · exact .error (.inr rfl)

theorem yields_inputSocket (k : Kind) (name : Json) :
    Yields Refuses (fun s => name = .str s.key) (inputSocket k name) := by
  unfold inputSocket
  split
  · rename_i s
    cases found : k.input? s with
    | none => exact .error (.inr rfl)
    | some socket =>
      have key : socket.key = s := by simpa using List.find?_some found
      exact .ok (by rw [key])
  · exact .error (.inr rfl)

theorem yields_newLink (g : Graph Int) (d : Declaration Int) :
    Yields Refuses (fun l => d = .ofLink l) (g.newLink d) := by
  refine (refuses_of_faults (faults_node g d.source)).bind fun m _ => ?_
  refine (refuses_of_faults (faults_get g.registry (.str m.kind))).bind fun k _ => ?_
  refine (refuses_of_faults (faults_node g d.target)).bind fun n _ => ?_
  refine (refuses_of_faults (faults_get g.registry (.str n.kind))).bind fun k' _ => ?_
  refine (yields_outputSocket k d.output).bind fun o output => ?_
  refine (yields_inputSocket k' d.input).bind fun i input => ?_
  split
  · refine .ok ?_
    rw [Declaration.ofLink, ← output, ← input]
  · exact .error (.inr rfl)

theorem yields_connect (g : Graph Int) (d : Declaration Int) :
    Yields Refuses (fun _ => Gains g (g.connect d).1 [d]) (g.connect d).2.outcome := by
  have new := yields_newLink g d
  cases made : g.newLink d with
  | error e =>
    rw [made] at new
    simp only [connect, made]
    cases new with
    | error cause => exact .error cause
  | ok l =>
    rw [made] at new
    obtain rfl := new.value
    by_cases known : l ∈ g.links
    · have same : g.connect (.ofLink l) = (g, pure l) := by
        simp only [connect, made, if_pos ((any_same_iff _ _).mpr known)]
      rw [same]
      refine .ok ⟨rfl, rfl, fun d => ?_⟩
      rw [List.mem_singleton, or_iff_left_of_imp]
      rintro rfl
      exact ⟨l, known, rfl⟩
    · obtain ⟨added, reported⟩ := connect_of_fresh made known
      have gains : Gains g (g.connect (.ofLink l)).1 [.ofLink l] := by
        rw [added]
        refine ⟨rfl, rfl, fun d => ?_⟩
        simp only [Holds, List.mem_append, List.mem_singleton]
        constructor
        · rintro ⟨m, member | rfl, same⟩
          · exact .inl ⟨m, member, same⟩
          · exact .inr same
        · rintro (⟨m, member, same⟩ | rfl)
          · exact ⟨m, .inl member, same⟩
          · exact ⟨l, .inr rfl, rfl⟩
      rw [reported]
      rcases writing_cases [l.source, l.target] (.ok l) with ⟨-, same⟩ | ⟨-, failed⟩
      · rw [show writing [(Declaration.ofLink l).source, (Declaration.ofLink l).target] (.ok l) =
          .ok l from same]
        exact .ok gains
      · rw [show writing [(Declaration.ofLink l).source, (Declaration.ofLink l).target] (.ok l) =
          .error unwritable from failed]
        exact .error (.inr rfl)

theorem faults_readLink (link : Json) (side : String) : Faults (readLink link side) := by
  refine (link.faults_member "node").bind fun v _ => ?_
  refine v.faults_toInteger.bind fun node _ => ?_
  exact (link.faults_member side).bind fun _ _ => .ok trivial

/-- The links into an input are those that its entry lists. -/
theorem yields_loadInput (g : Graph Int) (id : Int) (input : String) (socket : Json) :
    Yields Refuses (fun g' => ∃ links, listed "output" input socket = .ok links ∧
      Gains g g' (links.map (·.into id))) (g.loadInput id input socket).outcome := by
  simp only [loadInput, Logged.outcome_bind, Logged.outcome_liftM]
  refine (refuses_of_faults (socket.faults_member "connections")).bind fun v found => ?_
  refine (refuses_of_faults v.faults_items).bind fun items listing => ?_
  have whole : listed "output" input socket = items.mapM fun link => do
      let other ← readLink link "output"
      return ⟨input, other.1, other.2⟩ := by
    rw [listed, found, Outcome.ok_bind, listing, Outcome.ok_bind]
  rw [whole, Logged.outcome_foldlM]
  refine Yields.foldlM_reading
    (R := fun g' (links : List Listed) => Gains g g' (links.map (·.into id)))
    (Gains.refl g) ?_ items
  intro g' link links gains
  simp only [Logged.outcome_bind, Logged.outcome_liftM]
  refine (refuses_of_faults (faults_readLink link "output")).bind ?_
  rintro ⟨source, output⟩ read
  refine (yields_connect g' ⟨source, output, id, .str input⟩).bind fun _ more => ?_
  refine .ok ⟨⟨input, source, output⟩, ?_, ?_⟩
  · rw [read]
    rfl
  · rw [List.map_append]
    exact gains.append more

/-- The links into a node are those that its entry lists at its inputs. -/
theorem yields_loadInputs (g : Graph Int) (id : Int) (members : Members) :
    Yields Refuses (fun g' => ∃ lists, members.mapM (fun m => listed "output" m.1 m.2) = .ok lists ∧
      Gains g g' (lists.flatten.map (·.into id)))
      (members.foldlM (fun (g : Graph Int) (m : String × Json) => g.loadInput id m.1 m.2)
        g).outcome := by
  rw [Logged.outcome_foldlM]
  refine Yields.foldlM_reading
    (R := fun g' (lists : List (List Listed)) => Gains g g' (lists.flatten.map (·.into id)))
    (Gains.refl g) ?_ members
  intro g' m lists gains
  refine (yields_loadInput g' id m.1 m.2).mono (fun _ cause => cause) ?_
  rintro g'' ⟨links, read, more⟩
  refine ⟨links, read, ?_⟩
  rw [List.flatten_append, List.flatten_singleton, List.map_append]
  exact gains.append more

/-- Declarations are known when they are there, or others that count as the same. -/
def Knows (known : List (Declaration Int)) (d : Declaration Int) : Prop :=
  ∃ d' ∈ known, d' = d ∨ d'.alike d = true

/-- The second declarations are the first with others put in. -/
def Covers (known known' declared : List (Declaration Int)) : Prop :=
  ∀ d, Knows known d ∨ d ∈ declared → Knows known' d

theorem Covers.refl (known : List (Declaration Int)) : Covers known known [] := by
  rintro d (knows | none)
  · exact knows
  · simp at none

theorem Covers.append {known known' known'' first second : List (Declaration Int)}
    (covers : Covers known known' first) (covers' : Covers known' known'' second) :
    Covers known known'' (first ++ second) := by
  intro d either
  rw [List.mem_append, ← or_assoc] at either
  exact covers' d (either.imp_left (covers d))

theorem yields_addDeclaration (known : List (Declaration Int)) (d : Declaration Int) :
    Yields Refuses (fun known' => Covers known known' [d]) (addDeclaration known d) := by
  refine Yields.bind (refuses_of_faults ?_) fun _ _ => .ok ?_
  · exact d.input.faults_asLabel.bind fun _ _ => .ok trivial
  · split
    · rename_i alike
      rintro d' (knows | last)
      · exact knows
      · obtain ⟨d'', member, same⟩ := List.any_eq_true.mp alike
        rw [List.mem_singleton.mp last]
        exact ⟨d'', member, .inr same⟩
    · rintro d' (⟨d'', member, same⟩ | last)
      · exact ⟨d'', List.mem_append_left _ member, same⟩
      · exact ⟨d, by simp, .inl (List.mem_singleton.mp last).symm⟩

theorem yields_loadOutput (known : List (Declaration Int)) (id : Int) (output : String)
    (socket : Json) :
    Yields Refuses (fun known' => ∃ links, listed "input" output socket = .ok links ∧
      Covers known known' (links.map (·.outOf id))) (loadOutput known id output socket) := by
  refine (refuses_of_faults (socket.faults_member "connections")).bind fun v found => ?_
  refine (refuses_of_faults v.faults_items).bind fun items listing => ?_
  have whole : listed "input" output socket = items.mapM fun link => do
      let other ← readLink link "input"
      return ⟨output, other.1, other.2⟩ := by
    rw [listed, found, Outcome.ok_bind, listing, Outcome.ok_bind]
  rw [whole]
  refine Yields.foldlM_reading
    (R := fun known' (links : List Listed) => Covers known known' (links.map (·.outOf id)))
    (Covers.refl known) ?_ items
  intro known' link links covers
  refine (refuses_of_faults (faults_readLink link "input")).bind ?_
  rintro ⟨target, input⟩ read
  refine (yields_addDeclaration known' ⟨id, .str output, target, input⟩).mono
    (fun _ cause => cause) fun known'' more => ⟨⟨output, target, input⟩, ?_, ?_⟩
  · rw [read]
    rfl
  · rw [List.map_append]
    exact covers.append more

theorem yields_loadOutputs (known : List (Declaration Int)) (id : Int) (members : Members) :
    Yields Refuses (fun known' => ∃ lists,
      members.mapM (fun m => listed "input" m.1 m.2) = .ok lists ∧
      Covers known known' (lists.flatten.map (·.outOf id)))
      (members.foldlM (fun known (m : String × Json) => loadOutput known id m.1 m.2) known) := by
  refine Yields.foldlM_reading (R := fun known' (lists : List (List Listed)) =>
    Covers known known' (lists.flatten.map (·.outOf id)))
    (Covers.refl known) ?_ members
  intro known' m lists covers
  refine (yields_loadOutput known' id m.1 m.2).mono (fun _ cause => cause) ?_
  rintro known'' ⟨links, read, more⟩
  refine ⟨links, read, ?_⟩
  rw [List.flatten_append, List.flatten_singleton, List.map_append]
  exact covers.append more

/-- An entry adds the links that it declares at its inputs and gathers those at its outputs. -/
theorem yields_loadLinks (state : Graph Int × List (Declaration Int)) (entry : Json) :
    Yields Refuses (fun state' => ∃ declared, declarations entry = .ok declared ∧
      Gains state.1 state'.1 declared.inputs ∧ Covers state.2 state'.2 declared.outputs)
      (loadLinks state entry).outcome := by
  simp only [loadLinks, Logged.outcome_bind, Logged.outcome_liftM]
  refine (refuses_of_faults (entry.faults_member "id")).bind fun v given => ?_
  refine (refuses_of_faults v.faults_toInteger).bind fun id read => ?_
  refine (refuses_of_faults (Json.faults_membersOf _)).bind fun inputs into => ?_
  refine (yields_loadInputs state.1 id inputs).bind ?_
  rintro g' ⟨lists, listed, gains⟩
  refine (refuses_of_faults (Json.faults_membersOf _)).bind fun outputs outOf => ?_
  rw [Logged.outcome_foldlM]
  refine (yields_loadOutputs state.2 id outputs).bind ?_
  rintro known' ⟨lists', listed', covers⟩
  have named : entryId entry = .ok id := by rw [entryId, given, Outcome.ok_bind, read]
  refine .ok ⟨⟨lists.flatten.map (·.into id), lists'.flatten.map (·.outOf id)⟩, ?_, gains, covers⟩
  simp only [declarations, listedAt, named, into, outOf, listed, listed', Outcome.ok_bind]
  rfl

/-- All entries together. -/
theorem yields_loadAllLinks (g : Graph Int) (entries : Members) :
    Yields Refuses (fun state => ∃ declared,
      entries.mapM (fun e => declarations e.2) = .ok declared ∧
      Gains g state.1 (declared.flatMap (·.inputs)) ∧
      Covers [] state.2 (declared.flatMap (·.outputs)))
      (entries.foldlM (fun state (e : String × Json) => loadLinks state e.2) (g, [])).outcome := by
  rw [Logged.outcome_foldlM]
  refine Yields.foldlM_reading
    (R := fun (state : Graph Int × List (Declaration Int)) (declared : List Declarations) =>
      Gains g state.1 (declared.flatMap (·.inputs)) ∧
        Covers [] state.2 (declared.flatMap (·.outputs)))
    (b := (g, [])) ⟨Gains.refl g, Covers.refl []⟩ ?_ entries
  rintro state e declared ⟨gains, covers⟩
  refine (yields_loadLinks state e.2).mono (fun _ cause => cause) ?_
  rintro state' ⟨more, read, gains', covers'⟩
  refine ⟨more, read, ?_, ?_⟩
  · rw [List.flatMap_append]
    simpa using gains.append gains'
  · rw [List.flatMap_append]
    simpa using covers.append covers'

end Links

section Whole

variable {g : Graph Int}

theorem yields_documentNodes (document : Json) :
    Yields Refuses (HasEntries document) (documentNodes document) := by
  unfold documentNodes
  split
  · rename_i members
    cases given : Members.get? members "id" with
    | none => exact .error (.inl rfl)
    | some id =>
      cases id with
      | str s =>
        by_cases supported : s.startsWith idHead = true
        · cases found : Members.get? members "nodes" with
          | none => simp only [Option.getD_some, supported]; exact .error (.inl rfl)
          | some nodes =>
            cases nodes with
            | obj entries =>
              simp only [Option.getD_some, supported]
              exact .ok ⟨members, s, rfl, given, supported, found⟩
            | _ => simp only [Option.getD_some, supported]; exact .error (.inl rfl)
        · simp only [Option.getD_some, supported]
          exact .error (.inl rfl)
      | _ => exact .error (.inl rfl)
  · exact .error (.inl rfl)

theorem documentNodes_eq {document : Json} {entries : Members}
    (has : HasEntries document entries) : documentNodes document = .ok entries := by
  obtain ⟨members, id, rfl, given, supported, found⟩ := has
  simp only [documentNodes, given, found, Option.getD_some, supported]
  rfl

theorem eq_str_of_alike {v : Json} {s : String} (alike : v.alike (.str s) = true) : v = .str s := by
  cases v <;> simp_all [Json.alike]

theorem eq_str_of_str_alike {v : Json} {s : String} (alike : (Json.str s).alike v = true) :
    v = .str s := by
  cases v <;> simp_all [Json.alike]

/-- Only a link's own declaration declares it. -/
theorem declares_iff {d : Declaration Int} {l : Link Int} :
    d.declares l = true ↔ d = .ofLink l := by
  constructor
  · intro declares
    obtain ⟨source, output, target, input⟩ := d
    simp only [Declaration.declares, Declaration.alike, Declaration.ofLink, Bool.and_eq_true,
      beq_iff_eq] at declares
    obtain ⟨⟨⟨rfl, output⟩, rfl⟩, input⟩ := declares
    rw [eq_str_of_alike output, eq_str_of_alike input, Declaration.ofLink]
  · rintro rfl
    simp [Declaration.declares, Declaration.alike, Declaration.ofLink, Json.alike]

theorem eq_ofLink_of_alike {d : Declaration Int} {l : Link Int}
    (alike : (Declaration.ofLink l).alike d = true) : d = .ofLink l := by
  obtain ⟨source, output, target, input⟩ := d
  simp only [Declaration.alike, Declaration.ofLink, Bool.and_eq_true, beq_iff_eq] at alike
  obtain ⟨⟨⟨rfl, output⟩, rfl⟩, input⟩ := alike
  rw [eq_str_of_str_alike output, eq_str_of_str_alike input, Declaration.ofLink]

/-- What is known and found among the links is a link. -/
theorem Knows.holds {known : List (Declaration Int)} {d : Declaration Int} (knows : Knows known d)
    (found : ∀ d ∈ known, g.links.any d.declares = true) : Holds g d := by
  obtain ⟨d', member, same⟩ := knows
  obtain ⟨l, inside, declares⟩ := List.any_eq_true.mp (found d' member)
  obtain rfl := declares_iff.mp declares
  rcases same with rfl | alike
  · exact ⟨l, inside, rfl⟩
  · exact ⟨l, inside, eq_ofLink_of_alike alike⟩

theorem yields_load (checks : g.registry.Checks) (bare : g.nodes = []) (free : g.links = [])
    (document : Json) :
    Yields Refuses (fun g' => ∃ entries, HasEntries document entries ∧ g'.registry = g.registry ∧
      DescribedBy g' entries) (g.load document).outcome := by
  simp only [load, Logged.outcome_bind, Logged.outcome_liftM]
  refine (yields_documentNodes document).bind fun entries has => ?_
  refine (yields_loadNodes checks bare entries).bind ?_
  rintro placed ⟨registry, links, described⟩
  refine (yields_loadAllLinks placed entries).bind ?_
  rintro ⟨linked, known⟩ ⟨declared, read, gains, covers⟩
  split
  · rename_i none
    have found : ∀ d ∈ known, linked.links.any d.declares = true := by simpa using none
    refine .ok ⟨entries, has, gains.registry.trans registry, ?_, declared, read, fun d => ?_, ?_⟩
    · rw [gains.registry, gains.nodes, registry]
      exact described
    · rw [gains.holds, or_iff_right]
      rintro ⟨l, member, -⟩
      rw [links, free] at member
      simp at member
    · exact fun d member => (covers d (.inr member)).holds found
  · simp only [Logged.outcome_bind, Logged.outcome_liftM]
    refine Yields.bind (P := fun _ => True) ?_ fun _ _ => .error (.inl rfl)
    refine Yields.mono ?_ (fun _ => .inr) fun _ same => same
    exact Yields.forM (fun d => Yields.forM Json.faults_checkWritable _) _

end Whole

end Document

end ShaderFlow
