import Mathlib.Data.List.Nodup
import ShaderFlow.Proofs.Render.Work
import ShaderFlow.Proofs.Sequence

set_option autoImplicit false

/-
The calls of a device tell which resources were made and which were released. A trace of calls is
safe if each call uses only what is there at its time. It is balanced with what is owned at its end
if everything that was made, once each, was released once or is still owned.
-/

namespace ShaderFlow

section Trace

namespace Call

/-- What a call makes. -/
def makes? : Call → Option Resource
  | compile n _ _ => some (.program n)
  | makeBuffer n => some (.buffer n)
  | makeVertexArray n _ _ => some (.vertexArray n)
  | makeTexture n _ _ _ => some (.texture n)
  | makeFramebuffer n _ => some (.framebuffer n)
  | _ => none

/-- What a call releases. -/
def releases? : Call → Option Resource
  | release r => some r
  | _ => none

/-- What a call names that has to be there. -/
def named : Call → List Resource
  | makeVertexArray _ program buffer => [.program program, .buffer buffer]
  | filterTexture n | clampAcross n | clampAlong n | writeTexture n _ | useTexture n => [.texture n]
  | useFramebuffer n | readFramebuffer n => [.framebuffer n]
  | setResolution program _ | setVideo program => [.program program]
  | draw n => [.vertexArray n]
  | release r => [r]
  | _ => []

/-- A call uses what it names. What a vertex array was made for is used by drawing it. -/
inductive Uses (past : List Call) : Call → Resource → Prop where
  | named {call : Call} {r : Resource} (member : r ∈ call.named) : Uses past call r
  | program {n p b : Nat} (joined : makeVertexArray n p b ∈ past) : Uses past (draw n) (.program p)
  | buffer {n p b : Nat} (joined : makeVertexArray n p b ∈ past) : Uses past (draw n) (.buffer b)

end Call

namespace Trace

/-- What was made, in order. -/
def made (t : List Call) : List Resource := t.filterMap Call.makes?

/-- What was released, in order. -/
def released (t : List Call) : List Resource := t.filterMap Call.releases?

/-- A resource was made and not released. -/
def Live (t : List Call) (r : Resource) : Prop := r ∈ made t ∧ r ∉ released t

/-- Every call uses only what is live at its time. -/
def Safe (t : List Call) : Prop :=
  ∀ past call rest, t = past ++ call :: rest → ∀ r, call.Uses past r → Live past r

theorem made_snoc (t : List Call) (call : Call) :
    made (t ++ [call]) = made t ++ call.makes?.toList := by
  cases h : call.makes? <;> simp [made, h]

theorem released_snoc (t : List Call) (call : Call) :
    released (t ++ [call]) = released t ++ call.releases?.toList := by
  cases h : call.releases? <;> simp [released, h]

theorem Safe.nil : Safe [] := by
  intro past call rest split
  simp at split

theorem Safe.snoc {t : List Call} {call : Call} (safe : Safe t)
    (used : ∀ r, call.Uses t r → Live t r) : Safe (t ++ [call]) := by
  intro past last rest split
  rcases eq_or_mem_of_snoc_eq split with ⟨rfl, rfl⟩ | ⟨more, same⟩
  · exact used
  · exact safe past last more same

/-- A safe trace made every resource once, released each of these at most once, and left those that
are owned. -/
structure Balanced (t : List Call) (owned : List Resource) : Prop where
  nodup : (made t).Nodup
  perm : (made t).Perm (released t ++ owned)
  safe : Safe t

namespace Balanced

variable {t : List Call} {owned owned' : List Resource} {call : Call}

theorem nil : Balanced [] [] := ⟨.nil, .refl _, .nil⟩

theorem parted (balanced : Balanced t owned) : (released t ++ owned).Nodup :=
  balanced.perm.nodup_iff.mp balanced.nodup

/-- What is owned is what was made and not released. -/
theorem live_iff (balanced : Balanced t owned) (r : Resource) : Live t r ↔ r ∈ owned := by
  rw [Live, balanced.perm.mem_iff, List.mem_append]
  constructor
  · rintro ⟨either, unreleased⟩
    exact either.resolve_left unreleased
  · intro inside
    exact ⟨.inr inside, fun gone => List.disjoint_of_nodup_append balanced.parted gone inside⟩

theorem of_perm (balanced : Balanced t owned) (same : owned.Perm owned') : Balanced t owned' :=
  ⟨balanced.nodup, balanced.perm.trans (same.append_left _), balanced.safe⟩

/-- A call that uses what is owned, and makes what was not made before, takes what it releases out
of what is owned and puts what it makes into it. -/
theorem step (balanced : Balanced t owned) (used : ∀ r, call.Uses t r → r ∈ owned)
    (fresh : ∀ r ∈ call.makes?, r ∉ made t)
    (moved : (owned ++ call.makes?.toList).Perm (call.releases?.toList ++ owned')) :
    Balanced (t ++ [call]) owned' where
  nodup := by
    rw [made_snoc]
    refine List.Nodup.append balanced.nodup ?_ ?_
    · cases call.makes? <;> simp
    · intro r before now
      exact fresh r (Option.mem_toList.mp now) before
  perm := by
    rw [made_snoc, released_snoc, List.append_assoc]
    refine (balanced.perm.append_right _).trans ?_
    rw [List.append_assoc]
    exact moved.append_left _
  safe := balanced.safe.snoc fun r uses => (balanced.live_iff r).mpr (used r uses)

theorem release {r : Resource} (balanced : Balanced t owned) (moved : owned.Perm (r :: owned')) :
    Balanced (t ++ [.release r]) owned' := by
  refine balanced.step (fun r' uses => ?_) (fun _ none => by cases none)
    (by simpa [Call.makes?, Call.releases?] using moved)
  cases uses with
  | named member =>
    rw [List.mem_singleton.mp member]
    exact moved.mem_iff.mpr List.mem_cons_self

/-- Everything that is owned may be released in turn. -/
theorem releaseAll (balanced : Balanced t owned) : Balanced (t ++ owned.map .release) [] := by
  induction owned generalizing t with
  | nil => simpa using balanced
  | cons r owned ih =>
    have rest := ih (balanced.release (.refl _))
    simpa using rest

end Balanced

end Trace

end Trace

section Device

/-- A resource has a number up to the count of its sort. -/
def Counts.Covers (counts : Counts) : Resource → Prop
  | .program n => n ≤ counts.programs
  | .buffer n => n ≤ counts.buffers
  | .vertexArray n => n ≤ counts.vertexArrays
  | .texture n => n ≤ counts.textures
  | .framebuffer n => n ≤ counts.framebuffers

/-- The count of the sort of a resource goes up to its number. -/
def Counts.upTo (counts : Counts) : Resource → Counts
  | .program n => { counts with programs := n }
  | .buffer n => { counts with buffers := n }
  | .vertexArray n => { counts with vertexArrays := n }
  | .texture n => { counts with textures := n }
  | .framebuffer n => { counts with framebuffers := n }

theorem Counts.covers_upTo {counts : Counts} {r r' : Resource} (fresh : ¬ counts.Covers r)
    (either : counts.Covers r' ∨ r' = r) : (counts.upTo r).Covers r' := by
  rcases either with before | rfl
  · cases r <;> cases r' <;> simp only [Covers, upTo] at fresh before ⊢ <;> omega
  · cases r' <;> exact Nat.le_refl _

/-- A device after one more call. -/
def Device.noting (d : Device) (call : Call) : Device := { d with calls := d.calls ++ [call] }

open Trace

/-- No call of a device fails, and since some state its calls are balanced with what is owned. -/
structure Device.Holds (start : Device) (t : List Call) (owned : List Resource) (d : Device) :
    Prop where
  steady : d.faultAt = none
  calls : d.calls = start.calls ++ t
  balanced : Balanced t owned
  counted : ∀ r ∈ made t, d.counts.Covers r

namespace Device.Holds

variable {start d d' : Device} {t : List Call} {owned owned' : List Resource} {call : Call}

/-- A call after which the count is up to what it made. -/
theorem step (holds : start.Holds t owned d) (steady : d'.faultAt = none)
    (calls : d'.calls = d.calls ++ [call]) (used : ∀ r, call.Uses t r → r ∈ owned)
    (fresh : ∀ r ∈ call.makes?, ¬ d.counts.Covers r ∧ d'.counts.Covers r)
    (grown : ∀ r, d.counts.Covers r → d'.counts.Covers r)
    (moved : (owned ++ call.makes?.toList).Perm (call.releases?.toList ++ owned')) :
    start.Holds (t ++ [call]) owned' d' where
  steady := steady
  calls := by rw [calls, holds.calls, List.append_assoc]
  balanced := holds.balanced.step used
    (fun r makes before => (fresh r makes).1 (holds.counted r before)) moved
  counted := by
    intro r member
    rw [made_snoc, List.mem_append] at member
    rcases member with before | now
    · exact grown r (holds.counted r before)
    · exact (fresh r (Option.mem_toList.mp now)).2

theorem release {r : Resource} (holds : start.Holds t owned d)
    (moved : owned.Perm (r :: owned')) :
    start.Holds (t ++ [.release r]) owned' (d.noting (.release r)) where
  steady := holds.steady
  calls := by
    show d.calls ++ [.release r] = _
    rw [holds.calls, List.append_assoc]
  balanced := holds.balanced.release moved
  counted := by
    intro r' member
    rw [made_snoc] at member
    exact holds.counted r' (by simpa [Call.makes?] using member)

end Device.Holds

end Device

end ShaderFlow
