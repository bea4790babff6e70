import ShaderFlow.Binary64.Basic
import ShaderFlow.Text.Surrogate

set_option autoImplicit false

namespace ShaderFlow

inductive Json where
  | null
  | bool (b : Bool)
  | int (n : Int)
  | float (x : Binary64)
  | str (s : String)
  | arr (items : List Json)
  | obj (members : List (String × Json))
  deriving Inhabited

/-- Members of an object, each key once. -/
abbrev Members := List (String × Json)

namespace Members

def get? (members : Members) (key : String) : Option Json := members.lookup key

/-- Gives `key` a value; a key that is there keeps its place. -/
def insert : Members → String → Json → Members
  | [], key, value => [(key, value)]
  | (k, v) :: rest, key, value =>
    if k == key then (k, value) :: rest else (k, v) :: insert rest key value

def erase (members : Members) (key : String) : Members := members.filter (·.1 != key)

/-- All members of `changes` inserted in turn. -/
def merge (members changes : Members) : Members :=
  changes.foldl (fun acc (key, value) => insert acc key value) members

end Members

namespace Json

/-- The member of an object, if the value is one and has it. -/
def get? : Json → String → Option Json
  | obj members, key => Members.get? members key
  | _, _ => none

/-- The mark in front of a member's name that spells another value than a text. -/
def nameMark : String := String.ofList [Text.mark, '=']

/-- How a value other than a text is spelled as the name of a member: by what it has in common with
all values that count as the same, and by its document text. -/
structure SpelledName where
  identity : String
  text : String
  deriving DecidableEq

namespace SpelledName

/-- The name of a member. -/
def name (s : SpelledName) : String := nameMark ++ s.identity ++ nameMark ++ s.text

/-- How the name of a member spells a value, unless the name is a text. -/
def ofName? (name : String) : Option SpelledName :=
  match name.splitOn nameMark with
  | ["", identity, text] => some ⟨identity, text⟩
  | _ => none

end SpelledName

/-- Whether two names are the same or spell values that count as one. -/
def sameName (a b : String) : Bool :=
  a == b || (a.startsWith nameMark && b.startsWith nameMark &&
    (SpelledName.ofName? a).map (·.identity) == (SpelledName.ofName? b).map (·.identity))

mutual
/-- Whether two values count as one: `1`, `1.0` and `true` do, and the order of members does not
matter. -/
def alike : Json → Json → Bool
  | null, null => true
  | bool a, bool b => a == b
  | bool a, int n => (if a then 1 else 0) == n
  | bool a, float x => x.isInt (if a then 1 else 0)
  | int m, int n => m == n
  | int m, bool b => m == (if b then 1 else 0)
  | int m, float x => x.isInt m
  | float x, float y => x.alike y
  | float x, int n => x.isInt n
  | float x, bool b => x.isInt (if b then 1 else 0)
  | str s, str t => s == t
  | arr xs, arr ys => alikeItems xs ys
  | obj xs, obj ys => xs.length == ys.length && alikeMembers xs ys
  | _, _ => false

def alikeItems : List Json → List Json → Bool
  | [], [] => true
  | x :: xs, y :: ys => x.alike y && alikeItems xs ys
  | _, _ => false

/-- Whether every member of the first list has its like in the second. -/
def alikeMembers : List (String × Json) → List (String × Json) → Bool
  | [], _ => true
  | (key, x) :: xs, ys =>
    (match ys.find? fun m => sameName m.1 key with
      | some (_, y) => x.alike y
      | none => false) && alikeMembers xs ys
end

end Json

end ShaderFlow
