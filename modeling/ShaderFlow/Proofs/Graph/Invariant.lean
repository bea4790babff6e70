import Mathlib.Data.List.Nodup
import Mathlib.Logic.Relation
import ShaderFlow.Graph.Document
import ShaderFlow.Proofs.Outcome

set_option autoImplicit false

/-
In every graph that edits lead to, ids are distinct, each node holds data that its kind takes for
valid, and each link joins a declared output to a declared input of the same type, no link twice.
Every edit is a sequence of small changes, and each of these keeps the invariant.
-/

namespace ShaderFlow

namespace Logged

/-- What each step of a loop keeps, the whole loop keeps. -/
theorem foldlM_keeps {α β : Type} {P : β → Prop} {f : β → α → Logged β} {xs : List α}
    (step : ∀ b a b', P b → (f b a).outcome = .ok b' → P b') {b b' : β} (start : P b)
    (success : (xs.foldlM f b).outcome = .ok b') : P b' := by
  induction xs generalizing b with
  | nil =>
    cases success
    exact start
  | cons x xs ih =>
    rw [List.foldlM_cons, outcome_bind, Outcome.bind_eq_ok_iff] at success
    obtain ⟨next, here, rest⟩ := success
    exact ih (step b x next start here) rest

end Logged

namespace Graph

/-- A node with this id is there, and it is of this kind. -/
def Hosts (g : Graph Int) (id : Int) (k : Kind) : Prop :=
  ∃ n ∈ g.nodes, n.id = id ∧ g.registry.find? n.kind = some k

/-- A link leads from a declared output of a node to a declared input, both of one type. -/
def Joins (g : Graph Int) (l : Link Int) : Prop :=
  ∃ k k' o i, g.Hosts l.source k ∧ g.Hosts l.target k' ∧ k.output? l.output = some o ∧
    k'.input? l.input = some i ∧ o.type = i.type

/-- A node's kind is registered and takes its data for valid. -/
def Accepts (g : Graph Int) (n : Node Int) : Prop :=
  ∃ k, g.registry.find? n.kind = some k ∧ k.validate (.obj n.data) = .ok ()

/-- A node's data comes from the defaults of its kind by taking in changes. -/
def Completes (g : Graph Int) (n : Node Int) : Prop :=
  ∃ k changes, g.registry.find? n.kind = some k ∧ Members.update k.defaultData changes = .ok n.data

structure Sound (g : Graph Int) : Prop where
  nodup : g.ids.Nodup
  accepts : ∀ n ∈ g.nodes, g.Accepts n
  joins : ∀ l ∈ g.links, g.Joins l
  linksNodup : g.links.Nodup

theorem Hosts.mem_ids {g : Graph Int} {id : Int} {k : Kind} (hosts : g.Hosts id k) :
    id ∈ g.ids := by
  obtain ⟨n, member, named, -⟩ := hosts
  exact List.mem_map.mpr ⟨n, member, named⟩

theorem Hosts.builtin {g : Graph Int} {id : Int} {k : Kind} (hosts : g.Hosts id k)
    (builtin : g.registry = .builtin) : k ∈ Registry.builtinKinds := by
  obtain ⟨n, -, -, found⟩ := hosts
  rw [builtin] at found
  exact List.mem_of_find?_eq_some found

/-- A node has one kind. -/
theorem Hosts.kind_eq {g : Graph Int} {id : Int} {k k' : Kind} (hosts : g.Hosts id k)
    (sound : g.Sound) (hosts' : g.Hosts id k') : k = k' := by
  obtain ⟨n, member, named, found⟩ := hosts
  obtain ⟨n', member', named', found'⟩ := hosts'
  obtain rfl : n = n' :=
    List.inj_on_of_nodup_map sound.nodup member member' (named.trans named'.symm)
  exact Option.some.inj (found.symm.trans found')

/-- What a single change of a graph can be, where new ids have a property. -/
inductive Change (P : Int → Prop) (g : Graph Int) : Graph Int → Prop
  | added (n : Node Int) (readings : Nat) (fresh : n.id ∉ g.ids) (accepts : g.Accepts n)
      (completes : g.Completes n) (allowed : P n.id) :
      Change P g { g with nodes := g.nodes ++ [n], readings }
  | removed (id : Int) : Change P g { g with
      nodes := g.nodes.filter (·.id != id)
      links := g.links.filter fun l => l.source != id && l.target != id }
  | moved (id : Int) (position : Position) (readings : Nat) :
      Change P g { g.modifyNode id ({ · with position }) with readings }
  | linked (l : Link Int) (fresh : l ∉ g.links) (joins : g.Joins l) :
      Change P g { g with links := g.links ++ [l] }
  | unlinked (p : Link Int → Bool) : Change P g { g with links := g.links.eraseP p }

/-- The second graph comes from the first by changes. -/
abbrev Changes (P : Int → Prop) : Graph Int → Graph Int → Prop := Relation.ReflTransGen (Change P)

variable {P : Int → Prop} {g g' : Graph Int}

section Preservation

theorem Change.registry_eq (change : Change P g g') : g'.registry = g.registry := by
  cases change <;> rfl

/-- A node that neither end of a link loses keeps the link in place. -/
theorem Joins.of_hosts {l : Link Int} (joins : g.Joins l)
    (source : ∀ k, g.Hosts l.source k → g'.Hosts l.source k)
    (target : ∀ k, g.Hosts l.target k → g'.Hosts l.target k) : g'.Joins l := by
  obtain ⟨k, k', o, i, leaves, enters, found⟩ := joins
  exact ⟨k, k', o, i, source k leaves, target k' enters, found⟩

theorem hosts_of_subset (same : g'.registry = g.registry) (subset : g.nodes ⊆ g'.nodes) {id : Int}
    {k : Kind} (hosts : g.Hosts id k) : g'.Hosts id k := by
  obtain ⟨n, member, named, found⟩ := hosts
  exact ⟨n, subset member, named, by rw [same, found]⟩

theorem ids_modifyNode (g : Graph Int) (id : Int) (position : Position) :
    (g.modifyNode id ({ · with position })).ids = g.ids := by
  simp only [ids, modifyNode, List.map_map]
  apply List.map_congr_left
  intro n _
  simp only [Function.comp_apply]
  split <;> rfl

theorem hosts_modifyNode {id : Int} {position : Position} {other : Int} {k : Kind}
    (hosts : g.Hosts other k) : (g.modifyNode id ({ · with position })).Hosts other k := by
  obtain ⟨n, member, named, found⟩ := hosts
  refine ⟨_, List.mem_map.mpr ⟨n, member, rfl⟩, ?_, ?_⟩
  · split <;> exact named
  · split <;> exact found

theorem Sound.empty (registry : Registry) (readings : Nat) :
    Sound { registry, readings } where
  nodup := by simp [ids]
  accepts := by simp
  joins := by simp
  linksNodup := by simp

theorem Sound.added {n : Node Int} (sound : g.Sound) (readings : Nat) (fresh : n.id ∉ g.ids)
    (accepts : g.Accepts n) : Sound { g with nodes := g.nodes ++ [n], readings } where
  nodup := by
    simp only [ids, List.map_append, List.map_cons, List.map_nil]
    exact (List.perm_append_singleton _ _).nodup_iff.mpr (List.nodup_cons.mpr ⟨fresh, sound.nodup⟩)
  accepts := by
    intro m member
    rcases List.mem_append.mp member with member | last
    · exact sound.accepts m member
    · rw [List.mem_singleton.mp last]
      exact accepts
  joins := fun l member => (sound.joins l member).of_hosts
    (fun _ => hosts_of_subset (by rfl) (List.subset_append_left _ _))
    (fun _ => hosts_of_subset (by rfl) (List.subset_append_left _ _))
  linksNodup := sound.linksNodup

/-- Some of the nodes and the links between them. -/
theorem Sound.filter (sound : g.Sound) (kept : Int → Bool) : Sound { g with
    nodes := g.nodes.filter fun n => kept n.id
    links := g.links.filter fun l => kept l.source && kept l.target } where
  nodup := sound.nodup.sublist (List.filter_sublist.map _)
  accepts := fun n member => sound.accepts n (List.mem_filter.mp member).1
  joins := by
    intro l member
    obtain ⟨inside, ends⟩ := List.mem_filter.mp member
    obtain ⟨source, target⟩ := Bool.and_eq_true_iff.mp ends
    have stays : ∀ id k, kept id = true → g.Hosts id k →
        Hosts { g with
          nodes := g.nodes.filter fun n => kept n.id
          links := g.links.filter fun l => kept l.source && kept l.target } id k := by
      rintro id k here ⟨n, present, rfl, found⟩
      exact ⟨n, List.mem_filter.mpr ⟨present, here⟩, rfl, found⟩
    exact (sound.joins l inside).of_hosts (fun k => stays _ k source) (fun k => stays _ k target)
  linksNodup := sound.linksNodup.sublist List.filter_sublist

theorem Sound.removed (sound : g.Sound) (id : Int) : Sound { g with
    nodes := g.nodes.filter (·.id != id)
    links := g.links.filter fun l => l.source != id && l.target != id } :=
  sound.filter (· != id)

theorem Sound.moved (sound : g.Sound) (id : Int) (position : Position) (readings : Nat) :
    Sound { g.modifyNode id ({ · with position }) with readings } where
  nodup := by
    have := sound.nodup
    rwa [← ids_modifyNode g id position] at this
  accepts := by
    intro m member
    obtain ⟨n, inside, rfl⟩ := List.mem_map.mp member
    have accepts := sound.accepts n inside
    split <;> exact accepts
  joins := fun l member => (sound.joins l member).of_hosts
    (fun _ => hosts_modifyNode) (fun _ => hosts_modifyNode)
  linksNodup := sound.linksNodup

theorem Sound.linked {l : Link Int} (sound : g.Sound) (fresh : l ∉ g.links) (joins : g.Joins l) :
    Sound { g with links := g.links ++ [l] } where
  nodup := sound.nodup
  accepts := sound.accepts
  joins := by
    intro m member
    rcases List.mem_append.mp member with member | last
    · exact sound.joins m member
    · rw [List.mem_singleton.mp last]
      exact joins
  linksNodup := (List.perm_append_singleton _ _).nodup_iff.mpr
    (List.nodup_cons.mpr ⟨fresh, sound.linksNodup⟩)

theorem Sound.change (sound : g.Sound) (change : Change P g g') : g'.Sound := by
  cases change with
  | added n readings fresh accepts => exact sound.added readings fresh accepts
  | removed id => exact sound.removed id
  | moved id position readings => exact sound.moved id position readings
  | linked l fresh joins => exact sound.linked fresh joins
  | unlinked p =>
    exact ⟨sound.nodup, sound.accepts,
      fun l member => sound.joins l (List.eraseP_sublist.subset member),
      sound.linksNodup.sublist List.eraseP_sublist⟩

theorem Sound.changes (sound : g.Sound) (changes : Changes P g g') : g'.Sound := by
  induction changes with
  | refl => exact sound
  | tail _ change ih => exact ih.change change

theorem Changes.registry_eq (changes : Changes P g g') : g'.registry = g.registry := by
  induction changes with
  | refl => rfl
  | tail _ change ih => rw [change.registry_eq, ih]

/-- What all ids have in common, and new ids too, stays so. -/
theorem Changes.ids_keep (changes : Changes P g g') (all : ∀ id ∈ g.ids, P id) :
    ∀ id ∈ g'.ids, P id := by
  induction changes with
  | refl => exact all
  | tail _ change ih =>
    cases change with
    | added n readings fresh accepts completes allowed =>
      intro id member
      simp only [ids, List.map_append, List.mem_append, List.map_cons, List.map_nil,
        List.mem_singleton] at member
      rcases member with member | rfl
      · exact ih id member
      · exact allowed
    | removed id => exact fun other member => ih other ((List.filter_sublist.map _).subset member)
    | @moved id position readings =>
      intro other member
      exact ih other (by rwa [← ids_modifyNode _ id position])
    | linked | unlinked => exact ih

end Preservation

section Operations

theorem get_eq_ok {r : Registry} {v : Json} {k : Kind} (success : r.get v = .ok k) :
    ∃ name, v = .str name ∧ r.find? name = some k ∧ k.name = name := by
  obtain ⟨label, shown, success⟩ := Outcome.bind_eq_ok_iff.mp success
  cases v with
  | str name =>
    cases shown
    cases found : r.find? name with
    | none => simp [found] at success
    | some k' =>
      simp only [found] at success
      cases success
      exact ⟨name, rfl, found, by simpa using List.find?_some found⟩
  | arr | obj => cases shown
  | _ =>
    cases shown
    cases success

theorem contains_iff (g : Graph Int) (id : Int) : g.contains id = true ↔ id ∈ g.ids := by
  simp [contains, find?, ids]

theorem newId_fresh {wanted : Option Int} {id : Int} (success : g.newId wanted = .ok id) :
    id ∉ g.ids := by
  cases wanted with
  | none =>
    obtain ⟨greatest, found, success⟩ := Outcome.bind_eq_ok_iff.mp success
    cases found
    cases largest : g.ids.max? with
    | none =>
      rw [List.max?_eq_none_iff.mp largest]
      simp
    | some m =>
      rw [largest] at success
      cases success
      intro member
      have bound : m + 1 ≤ m := (List.max?_le_iff largest).mp (Int.le_refl m) _ member
      omega
  | some w =>
    obtain ⟨_, _, success⟩ := Outcome.bind_eq_ok_iff.mp success
    split at success
    · obtain ⟨_, _, success⟩ := Outcome.bind_eq_ok_iff.mp success
      cases success
    · rename_i free
      cases success
      exact fun member => free ((contains_iff g id).mpr member)

theorem newNode_eq_ok {kind position data : Json} {wanted : Option Int} {n : Node Int}
    (success : g.newNode kind position data wanted = .ok n) :
    g.newId wanted = .ok n.id ∧ g.Accepts n ∧ g.Completes n := by
  obtain ⟨k, got, success⟩ := Outcome.bind_eq_ok_iff.mp success
  obtain ⟨members, updated, success⟩ := Outcome.bind_eq_ok_iff.mp success
  obtain ⟨⟨⟩, valid, success⟩ := Outcome.bind_eq_ok_iff.mp success
  obtain ⟨id, free, success⟩ := Outcome.bind_eq_ok_iff.mp success
  obtain ⟨place, _, same⟩ := Outcome.bind_eq_ok_iff.mp success
  cases same
  obtain ⟨name, -, found, rfl⟩ := get_eq_ok got
  exact ⟨free, ⟨k, found, valid⟩, k, data, found, updated⟩

theorem toJson_int (id : Int) : NodeId.toJson id = .int id := rfl

theorem checkWritable_str (s : String) : (Json.str s).checkWritable = .ok () := rfl

/-- An id that messages and names can spell. -/
def Writable (id : Int) : Prop := (Json.int id).checkWritable = .ok ()

/-- The failure to write an id down. -/
def unwritable : Error := .misuse .value "an integer has too many digits to be written"

theorem writable_iff (id : Int) : Writable id ↔ id.natAbs < Json.integerBound := by
  rw [Writable, Json.checkWritable]
  split <;> simp_all

theorem checkWritable_of_not {id : Int} (long : ¬ Writable id) :
    (Json.int id).checkWritable = .error unwritable := by
  rw [writable_iff] at long
  rw [Json.checkWritable, if_neg long, unwritable]

theorem writeAll_eq_ok {ids : List Int} (each : ∀ id ∈ ids, Writable id) :
    (ids.map Json.int).forM Json.checkWritable = .ok () := by
  induction ids with
  | nil => rfl
  | cons id ids ih =>
    have here : (Json.int id).checkWritable = .ok () := each id List.mem_cons_self
    rw [List.map_cons, List.forM_eq_forM, List.forM_cons, here, Outcome.ok_bind]
    exact ih fun id member => each id (List.mem_cons_of_mem _ member)

theorem writeAll_eq_error {ids : List Int} (long : ∃ id ∈ ids, ¬ Writable id) :
    (ids.map Json.int).forM Json.checkWritable = .error unwritable := by
  induction ids with
  | nil => simp at long
  | cons id ids ih =>
    rw [List.map_cons, List.forM_eq_forM, List.forM_cons]
    by_cases here : Writable id
    · obtain ⟨id', member, long⟩ := long
      rcases List.mem_cons.mp member with rfl | member
      · exact absurd here long
      · rw [show (Json.int id).checkWritable = .ok () from here, Outcome.ok_bind]
        exact ih ⟨id', member, long⟩
    · rw [checkWritable_of_not here]
      rfl

/-- An answer given after some ids are written down. -/
def writing {α : Type} (ids : List Int) (answer : Except Error α) : Except Error α := do
  (ids.map Json.int).forM Json.checkWritable
  answer

theorem writing_bind {α β : Type} (ids : List Int) (answer : Except Error α)
    (next : α → Except Error β) :
    (writing ids answer >>= next) = writing ids (answer >>= next) := by
  rw [writing, bind_assoc]
  rfl

theorem writing_cases {α : Type} (ids : List Int) (answer : Except Error α) :
    ((∀ id ∈ ids, Writable id) ∧ writing ids answer = answer) ∨
      ((∃ id ∈ ids, ¬ Writable id) ∧ writing ids answer = .error unwritable) := by
  by_cases all : ∀ id ∈ ids, Writable id
  · refine .inl ⟨all, ?_⟩
    rw [writing, writeAll_eq_ok all, Outcome.ok_bind]
  · have long : ∃ id ∈ ids, ¬ Writable id := by simpa using all
    refine .inr ⟨long, ?_⟩
    rw [writing, writeAll_eq_error long, Outcome.error_bind]

theorem writing_error_ne_ok {α : Type} (ids : List Int) (e : Error) (a : α) :
    writing ids (.error e) ≠ .ok a := by
  intro same
  rcases writing_cases ids (.error e : Except Error α) with ⟨-, written⟩ | ⟨-, failed⟩
  · rw [written] at same
    cases same
  · rw [failed] at same
    cases same

theorem writing_single {α : Type} (id : Int) (answer : Except Error α) :
    ((Json.int id).checkWritable >>= fun _ => answer) = writing [id] answer := by
  simp only [writing, List.map_cons, List.map_nil, List.forM_eq_forM, List.forM_cons,
    List.forM_nil, bind_assoc, pure_bind]

/-- A new node is added, also when its id cannot be written. -/
theorem addNode_of_new {kind position data : Json} {wanted : Option Int} {n : Node Int}
    (made : g.newNode kind position data wanted = .ok n) :
    (g.addNode kind position data wanted).1 =
        { g with nodes := g.nodes ++ [n], readings := g.readings + 1 } ∧
      (g.addNode kind position data wanted).2.outcome = writing [n.id] (.ok n) := by
  have absent : g.contains n.id = false := by
    rw [Bool.eq_false_iff, ne_eq, contains_iff]
    exact newId_fresh (newNode_eq_ok made).1
  refine ⟨by simp [addNode, made, putNode, absent], ?_⟩
  rw [← writing_single]
  simp only [addNode, made, Logged.outcome_bind, Logged.outcome_liftM]
  rfl

/-- Adding a node changes nothing or adds the one new node. -/
theorem addNode_cases (g : Graph Int) (kind position data : Json) (wanted : Option Int) :
    (∃ e, g.addNode kind position data wanted = (g, throw e)) ∨
    ∃ n, g.newId wanted = .ok n.id ∧ g.Accepts n ∧ g.Completes n ∧
      (g.addNode kind position data wanted).1 =
        { g with nodes := g.nodes ++ [n], readings := g.readings + 1 } ∧
      (g.addNode kind position data wanted).2.outcome = writing [n.id] (.ok n) := by
  cases made : g.newNode kind position data wanted with
  | error e => exact .inl ⟨e, by simp only [addNode, made]⟩
  | ok n =>
    obtain ⟨free, accepts, completes⟩ := newNode_eq_ok made
    exact .inr ⟨n, free, accepts, completes, addNode_of_new made⟩

theorem changes_addNode {kind position data : Json} {wanted : Option Int}
    (allowed : ∀ id, ((∃ n, (g.addNode kind position data wanted).2.outcome = .ok n) →
      Writable id) → P id) : Changes P g (g.addNode kind position data wanted).1 := by
  rcases g.addNode_cases kind position data wanted with
    ⟨e, same⟩ | ⟨n, free, accepts, completes, same, reported⟩
  · rw [same]
  · rw [same]
    refine .single (.added n _ (newId_fresh free) accepts completes (allowed n.id ?_))
    rintro ⟨m, success⟩
    rcases writing_cases [n.id] (.ok n) with ⟨written, -⟩ | ⟨-, failed⟩
    · exact written n.id List.mem_cons_self
    · rw [reported, failed] at success
      cases success

theorem find?_of_node {id : Int} {n : Node Int} (success : g.node id = .ok n) :
    g.find? id = some n := by
  obtain ⟨⟨⟩, _, success⟩ := Outcome.bind_eq_ok_iff.mp success
  cases found : g.find? id with
  | none =>
    simp only [found] at success
    obtain ⟨_, _, success⟩ := Outcome.bind_eq_ok_iff.mp success
    cases success
  | some m =>
    simp only [found] at success
    cases success
    rfl

theorem node_eq_ok {id : Int} {n : Node Int} (success : g.node id = .ok n) :
    n ∈ g.nodes ∧ n.id = id := by
  have found := find?_of_node success
  exact ⟨List.mem_of_find?_eq_some found, by simpa using List.find?_some found⟩

theorem find?_eq_some (sound : g.Sound) {n : Node Int} (member : n ∈ g.nodes) :
    g.find? n.id = some n := by
  cases found : g.find? n.id with
  | none => simpa using List.find?_eq_none.mp found n member
  | some m =>
    have same : m.id = n.id := by simpa using List.find?_some found
    rw [List.inj_on_of_nodup_map sound.nodup (List.mem_of_find?_eq_some found) member same]

theorem node_eq_ok_of_mem (sound : g.Sound) {n : Node Int} (member : n ∈ g.nodes) :
    g.node n.id = .ok n := by
  simp only [node, find?_eq_some sound member]
  rfl

theorem kindOf_eq_ok {n : Node Int} {k : Kind} (found : g.registry.find? n.kind = some k) :
    g.kindOf n = .ok k := by
  simp only [kindOf, Registry.get, Json.asLabel, Outcome.ok_bind, found]
  rfl

theorem hosts_of_kindOf {id : Int} {n : Node Int} {k : Kind} (present : g.node id = .ok n)
    (success : g.kindOf n = .ok k) : g.Hosts id k := by
  obtain ⟨member, named⟩ := node_eq_ok present
  obtain ⟨name, same, found, -⟩ := get_eq_ok success
  cases same
  exact ⟨n, member, named, found⟩

theorem outputSocket_eq_ok {k : Kind} {name : Json} {o : Socket}
    (success : outputSocket k name = .ok o) : k.output? o.key = some o := by
  unfold outputSocket at success
  split at success
  · rename_i s
    cases found : k.output? s with
    | none => simp [found] at success
    | some o' =>
      simp only [found] at success
      cases success
      have named : o.key = s := by simpa using List.find?_some found
      rw [named, found]
  · cases success

theorem inputSocket_eq_ok {k : Kind} {name : Json} {i : Socket}
    (success : inputSocket k name = .ok i) : k.input? i.key = some i := by
  unfold inputSocket at success
  split at success
  · rename_i s
    cases found : k.input? s with
    | none => simp [found] at success
    | some i' =>
      simp only [found] at success
      cases success
      have named : i.key = s := by simpa using List.find?_some found
      rw [named, found]
  · cases success

theorem newLink_eq_ok {d : Declaration Int} {l : Link Int} (success : g.newLink d = .ok l) :
    g.Joins l ∧ l.source = d.source ∧ l.target = d.target := by
  obtain ⟨m, source, success⟩ := Outcome.bind_eq_ok_iff.mp success
  obtain ⟨k, sourceKind, success⟩ := Outcome.bind_eq_ok_iff.mp success
  obtain ⟨n, target, success⟩ := Outcome.bind_eq_ok_iff.mp success
  obtain ⟨k', targetKind, success⟩ := Outcome.bind_eq_ok_iff.mp success
  obtain ⟨o, output, success⟩ := Outcome.bind_eq_ok_iff.mp success
  obtain ⟨i, input, success⟩ := Outcome.bind_eq_ok_iff.mp success
  split at success
  · rename_i typed
    cases success
    exact ⟨⟨k, k', o, i, hosts_of_kindOf source sourceKind, hosts_of_kindOf target targetKind,
      outputSocket_eq_ok output, inputSocket_eq_ok input, typed⟩, rfl, rfl⟩
  · cases success

theorem any_same_iff (links : List (Link Int)) (l : Link Int) :
    links.any l.same = true ↔ l ∈ links := by
  simp only [List.any_eq_true, Link.same, Bool.and_eq_true, beq_iff_eq]
  constructor
  · rintro ⟨m, member, ⟨⟨source, output⟩, target⟩, input⟩
    obtain rfl : l = m := by
      cases l
      cases m
      simp_all
    exact member
  · exact fun member => ⟨l, member, ⟨⟨rfl, rfl⟩, rfl⟩, rfl⟩

/-- A new link is added, also when an end of it cannot be written. -/
theorem connect_of_fresh {d : Declaration Int} {l : Link Int} (made : g.newLink d = .ok l)
    (fresh : l ∉ g.links) :
    (g.connect d).1 = { g with links := g.links ++ [l] } ∧
      (g.connect d).2.outcome = writing [d.source, d.target] (.ok l) := by
  obtain ⟨-, source, target⟩ := newLink_eq_ok made
  have absent : ¬ g.links.any l.same = true := fun known => fresh ((any_same_iff _ _).mp known)
  constructor
  · simp only [connect, made, if_neg absent]
  · simp only [connect, made, if_neg absent, Logged.outcome_bind, Logged.outcome_liftM,
      Declaration.checkWritable, Declaration.ofLink, Declaration.map, source, target, writing,
      List.map_cons, List.map_nil, List.forM_eq_forM, List.forM_cons, List.forM_nil,
      bind_assoc, pure_bind, toJson_int, checkWritable_str, Outcome.ok_bind,
      Logged.outcome_tell, Logged.outcome_pure]

/-- Connecting changes nothing or adds the one new link. -/
theorem connect_cases (g : Graph Int) (d : Declaration Int) :
    (∃ e, g.connect d = (g, throw e)) ∨ (∃ l ∈ g.links, g.connect d = (g, pure l)) ∨
    ∃ l, l ∉ g.links ∧ g.Joins l ∧ (l.source = d.source ∧ l.target = d.target) ∧
      (g.connect d).1 = { g with links := g.links ++ [l] } ∧
      (g.connect d).2.outcome = writing [d.source, d.target] (.ok l) := by
  cases made : g.newLink d with
  | error e => exact .inl ⟨e, by simp only [connect, made]⟩
  | ok l =>
    by_cases known : l ∈ g.links
    · refine .inr (.inl ⟨l, known, ?_⟩)
      simp only [connect, made, if_pos ((any_same_iff _ _).mpr known)]
    · obtain ⟨joins, ends⟩ := newLink_eq_ok made
      exact .inr (.inr ⟨l, known, joins, ends, connect_of_fresh made known⟩)

theorem changes_connect (d : Declaration Int) : Changes P g (g.connect d).1 := by
  rcases g.connect_cases d with ⟨e, same⟩ | ⟨l, _, same⟩ | ⟨l, fresh, joins, -, same, -⟩
  · rw [same]
  · rw [same]
  · rw [same]
    exact .single (.linked l fresh joins)

/-- Removing changes nothing or takes the node out, also when its id cannot be written. -/
theorem removeNode_cases (g : Graph Int) (id : Int) :
    (∃ e, g.removeNode id = (g, throw e)) ∨
    ∃ n, g.node id = .ok n ∧
      (g.removeNode id).1 = { g with
        nodes := g.nodes.filter (·.id != id)
        links := g.links.filter fun l => l.source != id && l.target != id } ∧
      (g.removeNode id).2.outcome = writing [id] (.ok n) := by
  cases present : g.node id with
  | error e => exact .inl ⟨e, by simp only [removeNode, present]⟩
  | ok n =>
    refine .inr ⟨n, rfl, by simp only [removeNode, present], ?_⟩
    rw [← writing_single]
    simp only [removeNode, present, Logged.outcome_bind, Logged.outcome_liftM]
    rfl

theorem changes_removeNode (id : Int) : Changes P g (g.removeNode id).1 := by
  rcases g.removeNode_cases id with ⟨e, same⟩ | ⟨n, _, same, -⟩
  · rw [same]
  · rw [same]
    exact .single (.removed id)

theorem changes_of_moveNode {id : Int} {position : Json}
    (success : g.moveNode id position = .ok g') :
    Changes P g g' := by
  obtain ⟨place, _, success⟩ := Outcome.bind_eq_ok_iff.mp success
  obtain ⟨n, _, same⟩ := Outcome.bind_eq_ok_iff.mp success
  cases same
  exact .single (.moved id place _)

theorem changes_of_disconnect {d : Declaration Int} (success : g.disconnect d = .ok g') :
    Changes P g g' := by
  unfold disconnect at success
  split at success
  · cases success
    exact .single (.unlinked d.declares)
  · obtain ⟨_, _, success⟩ := Outcome.bind_eq_ok_iff.mp success
    cases success

theorem changes_cloneNode {id : Int} {offset : Json}
    (allowed : ∀ id', ((∃ n, (g.cloneNode id offset).2.outcome = .ok n) → Writable id') → P id') :
    Changes P g (g.cloneNode id offset).1 := by
  revert allowed
  unfold cloneNode
  dsimp only
  split
  · exact fun _ => .refl
  · exact fun allowed => changes_addNode allowed

end Operations

section Documents

/-- A node of valid data and an id that is free is made as it is described. -/
theorem newNode_eq {n : Node Int} {k : Kind} {place changes : Json}
    (found : g.registry.find? n.kind = some k)
    (updated : Members.update k.defaultData changes = .ok n.data)
    (valid : k.validate (.obj n.data) = .ok ()) (fresh : n.id ∉ g.ids)
    (placed : Position.ofJson g.readings place = .ok n.position) :
    g.newNode (.str n.kind) place changes (some n.id) = .ok n := by
  have got : g.registry.get (.str n.kind) = .ok k := kindOf_eq_ok found
  have named : k.name = n.kind := by simpa using List.find?_some found
  have id : g.newId (some n.id) = .ok n.id := by
    rw [newId, if_neg (by rwa [contains_iff])]
    rfl
  rw [newNode, got, Outcome.ok_bind, updated, Outcome.ok_bind, valid, Outcome.ok_bind, id,
    Outcome.ok_bind, placed, Outcome.ok_bind, named]
  rfl

/-- An entry from which a new node is made adds the node. -/
theorem loadNode_of_new {n : Node Int} {key : String} {entry number : Json} {data : Members}
    (given : entry.member "id" = .ok number) (read : number.toInteger = .ok n.id)
    (keyed : (Json.str key).toInteger = .ok n.id) (kind : entry.member "name" = .ok (.str n.kind))
    (holds : memberOr entry "data" (.obj []) = .obj data)
    (made : g.newNode (.str n.kind) (memberOr entry "position" (.arr [.int 0, .int 0]))
      (.obj data) (some n.id) = .ok n) (writable : Writable n.id) :
    (g.loadNode key entry).outcome =
      .ok { g with nodes := g.nodes ++ [n], readings := g.readings + 1 } := by
  obtain ⟨added, reported⟩ := addNode_of_new made
  have written : writing [n.id] (.ok n) = .ok n := by
    rw [← writing_single, show (Json.int n.id).checkWritable = .ok () from writable,
      Outcome.ok_bind]
  rw [written] at reported
  simp only [loadNode, Logged.outcome_bind, Logged.outcome_liftM, given, read, keyed, kind, holds,
    Outcome.ok_bind, ne_eq, not_true_eq_false, if_false]
  show ((g.addNode (.str n.kind) _ (.obj data) (some n.id)).2.outcome >>= fun _ =>
    .ok (g.addNode (.str n.kind) _ (.obj data) (some n.id)).1) = _
  rw [reported, added]
  rfl

theorem changes_loadNode {start : Graph Int} {key : String} {entry : Json}
    (changes : Changes Writable start g) (success : (g.loadNode key entry).outcome = .ok g') :
    Changes Writable start g' := by
  simp only [loadNode, Logged.outcome_bind] at success
  obtain ⟨_, _, success⟩ := Outcome.bind_eq_ok_iff.mp success
  obtain ⟨id, _, success⟩ := Outcome.bind_eq_ok_iff.mp success
  obtain ⟨keyId, _, success⟩ := Outcome.bind_eq_ok_iff.mp success
  split at success
  · rw [Logged.outcome_bind] at success
    obtain ⟨_, _, success⟩ := Outcome.bind_eq_ok_iff.mp success
    cases success
  · split at success
    · rw [Logged.outcome_bind] at success
      obtain ⟨kind, _, success⟩ := Outcome.bind_eq_ok_iff.mp success
      rw [Logged.outcome_bind] at success
      obtain ⟨n, added, same⟩ := Outcome.bind_eq_ok_iff.mp success
      cases same
      exact changes.trans (changes_addNode fun _ written => written ⟨n, added⟩)
    · cases success

theorem changes_loadLinks {start : Graph Int} {known : List (Declaration Int)}
    {state : Graph Int × List (Declaration Int)} {entry : Json} (changes : Changes P start g)
    (success : (loadLinks (g, known) entry).outcome = .ok state) : Changes P start state.1 := by
  simp only [loadLinks, Logged.outcome_bind] at success
  obtain ⟨_, _, success⟩ := Outcome.bind_eq_ok_iff.mp success
  obtain ⟨id, _, success⟩ := Outcome.bind_eq_ok_iff.mp success
  obtain ⟨inputs, _, success⟩ := Outcome.bind_eq_ok_iff.mp success
  obtain ⟨after, linked, success⟩ := Outcome.bind_eq_ok_iff.mp success
  obtain ⟨outputs, _, success⟩ := Outcome.bind_eq_ok_iff.mp success
  obtain ⟨declared, _, same⟩ := Outcome.bind_eq_ok_iff.mp success
  cases same
  refine Logged.foldlM_keeps ?_ changes linked
  rintro g ⟨key, socket⟩ g' changes success
  simp only [loadInput, Logged.outcome_bind] at success
  obtain ⟨_, _, success⟩ := Outcome.bind_eq_ok_iff.mp success
  obtain ⟨links, _, success⟩ := Outcome.bind_eq_ok_iff.mp success
  refine Logged.foldlM_keeps ?_ changes success
  intro g link g' changes success
  rw [Logged.outcome_bind, Outcome.bind_eq_ok_iff] at success
  obtain ⟨⟨source, output⟩, _, success⟩ := success
  rw [Logged.outcome_bind, Outcome.bind_eq_ok_iff] at success
  obtain ⟨l, joined, same⟩ := success
  cases same
  exact changes.trans (changes_connect _)

/-- A graph that a document describes is made by changes of an empty one, and all its ids can be
written. -/
theorem changes_of_replace {document : Json} (success : (g.replace document).outcome = .ok g') :
    Changes Writable { registry := g.registry, readings := g.readings } g' := by
  have loaded : (load { registry := g.registry, readings := g.readings } document).outcome =
      .ok g' := by
    simp only [replace, tryCatch, MonadExcept.tryCatch] at success
    split at success
    · rename_i same
      rw [same]
      exact success
    · split at success <;> cases success
  simp only [load, Logged.outcome_bind] at loaded
  obtain ⟨entries, _, loaded⟩ := Outcome.bind_eq_ok_iff.mp loaded
  obtain ⟨nodes, placed, loaded⟩ := Outcome.bind_eq_ok_iff.mp loaded
  obtain ⟨⟨whole, declared⟩, linked, loaded⟩ := Outcome.bind_eq_ok_iff.mp loaded
  have first : Changes Writable { registry := g.registry, readings := g.readings } nodes :=
    Logged.foldlM_keeps (fun _ _ _ => changes_loadNode) .refl placed
  have second : Changes Writable { registry := g.registry, readings := g.readings } whole :=
    Logged.foldlM_keeps
      (P := fun state : Graph Int × List (Declaration Int) => Changes Writable _ state.1)
      (fun _ _ _ => changes_loadLinks) first linked
  split at loaded
  · cases loaded
    exact second
  · rw [Logged.outcome_bind] at loaded
    obtain ⟨_, _, loaded⟩ := Outcome.bind_eq_ok_iff.mp loaded
    cases loaded

end Documents

end Graph

/-- A call that edits a graph. -/
inductive Edit where
  | add (kind position data : Json) (id : Option Int)
  | remove (id : Int)
  | move (id : Int) (position : Json)
  | clone (id : Int) (offset : Json)
  | connect (d : Declaration Int)
  | disconnect (d : Declaration Int)
  | load (document : Json)

namespace Graph

/-- The graph after an edit, whether it is accepted or not, and what came of the edit. -/
def perform (g : Graph Int) : Edit → Graph Int × Except Error Unit
  | .add kind position data id => report (g.addNode kind position data id)
  | .remove id => report (g.removeNode id)
  | .move id position => report (g.after (do return (← g.moveNode id position, ())))
  | .clone id offset => report (g.cloneNode id offset)
  | .connect d => report (g.connect d)
  | .disconnect d => report (g.after (do return (← g.disconnect d, ())))
  | .load document => report (g.after (do return (← g.replace document, ())))
where
  report {α : Type} (result : Graph Int × Logged α) : Graph Int × Except Error Unit :=
    (result.1, result.2.outcome.map fun _ => ())

/-- The graph after some edits, those that were refused among them. -/
def run (g : Graph Int) (edits : List Edit) : Graph Int :=
  edits.foldl (fun g edit => (g.perform edit).1) g

/-- The graph after some edits if all of them are accepted. -/
def runAccepted (g : Graph Int) (edits : List Edit) : Except Error (Graph Int) :=
  edits.foldlM (fun g edit => (g.perform edit).2.map fun _ => (g.perform edit).1) g

variable {P : Int → Prop} {g : Graph Int}

theorem Changes.mono {Q : Int → Prop} {g g' : Graph Int} (imp : ∀ id, P id → Q id)
    (changes : Changes P g g') : Changes Q g g' := by
  refine Relation.ReflTransGen.mono ?_ _ _ changes
  intro g g' change
  cases change with
  | added n readings fresh accepts completes allowed =>
    exact .added n readings fresh accepts completes (imp n.id allowed)
  | removed id => exact .removed id
  | moved id position readings => exact .moved id position readings
  | linked l fresh joins => exact .linked l fresh joins
  | unlinked p => exact .unlinked p

/-- An edit that is refused leaves the graph as it is. -/
theorem changes_after {α : Type} {work : Logged (Graph Int × α)}
    (each : ∀ g' a, work.outcome = .ok (g', a) → Changes P g g') :
    Changes P g (g.after work).1 := by
  unfold after
  split
  · rename_i changed a success
    exact each changed a success
  · exact .refl

theorem ok_of_return {work : Logged (Graph Int)} {g' : Graph Int} {a : Unit}
    (success : (do return (← work, ()) : Logged (Graph Int × Unit)).outcome = .ok (g', a)) :
    work.outcome = .ok g' := by
  rw [Logged.outcome_bind, Outcome.bind_eq_ok_iff] at success
  obtain ⟨changed, made, same⟩ := success
  cases same
  exact made

/-- Every edit changes the graph step by step, or makes a new one so. An accepted edit brings in no
id that cannot be written. -/
theorem changes_perform (g : Graph Int) (edit : Edit)
    (allowed : ∀ id, ((g.perform edit).2 = .ok () → Writable id) → P id) :
    Changes P g (g.perform edit).1 ∨
      Changes P { registry := g.registry, readings := g.readings } (g.perform edit).1 := by
  cases edit with
  | add kind position data id =>
    refine .inl (changes_addNode fun other written => allowed other fun accepted => written ?_)
    obtain ⟨n, added, _⟩ := Outcome.map_eq_ok_iff.mp accepted
    exact ⟨n, added⟩
  | clone id offset =>
    refine .inl (changes_cloneNode fun other written => allowed other fun accepted => written ?_)
    obtain ⟨n, added, _⟩ := Outcome.map_eq_ok_iff.mp accepted
    exact ⟨n, added⟩
  | remove id => exact .inl (changes_removeNode id)
  | connect d => exact .inl (changes_connect d)
  | move id position =>
    exact .inl (changes_after fun _ _ success => changes_of_moveNode (ok_of_return success))
  | disconnect d =>
    exact .inl (changes_after fun _ _ success => changes_of_disconnect (ok_of_return success))
  | load document =>
    simp only [perform, perform.report, after]
    split
    · rename_i changed a success
      refine .inr ((changes_of_replace (ok_of_return success)).mono ?_)
      exact fun id written => allowed id fun _ => written
    · exact .inl .refl

theorem sound_run {g : Graph Int} (sound : g.Sound) (edits : List Edit) : (g.run edits).Sound := by
  induction edits generalizing g with
  | nil => exact sound
  | cons edit edits ih =>
    refine ih ?_
    rcases g.changes_perform edit (P := fun _ => True) fun _ _ => trivial with
      changes | changes
    · exact sound.changes changes
    · exact (Sound.empty _ _).changes changes

theorem registry_run (g : Graph Int) (edits : List Edit) : (g.run edits).registry = g.registry := by
  induction edits generalizing g with
  | nil => rfl
  | cons edit edits ih =>
    refine (ih _).trans ?_
    rcases g.changes_perform edit (P := fun _ => True) fun _ _ => trivial with
      changes | changes
    · exact changes.registry_eq
    · exact changes.registry_eq

/-- Accepted edits are edits, and leave only ids that can be written. -/
theorem runAccepted_eq_ok {g g' : Graph Int} {edits : List Edit} (all : ∀ id ∈ g.ids, Writable id)
    (accepted : g.runAccepted edits = .ok g') :
    g' = g.run edits ∧ ∀ id ∈ g'.ids, Writable id := by
  induction edits generalizing g with
  | nil =>
    cases accepted
    exact ⟨rfl, all⟩
  | cons edit edits ih =>
    obtain ⟨next, here, rest⟩ := Outcome.bind_eq_ok_iff.mp accepted
    obtain ⟨⟨⟩, ok, rfl⟩ := Outcome.map_eq_ok_iff.mp here
    refine ih ?_ rest
    rcases g.changes_perform edit (P := Writable) fun _ written => written ok with
      changes | changes
    · exact changes.ids_keep all
    · exact changes.ids_keep (by simp [ids])

/-- A sink behind a node with the longest id that can be written. Adding it fails, but it stays. -/
def longIds : List Edit :=
  [.add (.str "Cool Color") (.arr [.int 0, .int 0]) (.obj []) (some (Json.integerBound - 1)),
    .add (.str "Canvas") (.arr [.int 0, .int 0]) (.obj []) none]

theorem not_writable_integerBound : ¬ Writable Json.integerBound := by
  rw [writable_iff, Int.natAbs_natCast]
  exact Nat.lt_irrefl _

end Graph

end ShaderFlow
