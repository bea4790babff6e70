import ShaderFlow.Binary64.Basic
import ShaderFlow.Text.Quoted

set_option autoImplicit false

namespace ShaderFlow

/-- Vector types of the shading language. -/
inductive VecType where
  | vec2
  | vec3
  | vec4
  deriving DecidableEq, Inhabited

namespace VecType

def name : VecType → String
  | vec2 => "vec2"
  | vec3 => "vec3"
  | vec4 => "vec4"

def ofName? : String → Option VecType
  | "vec2" => some vec2
  | "vec3" => some vec3
  | "vec4" => some vec4
  | _ => none

end VecType

/-- Identity of a shared variable. -/
inductive Key where
  | text (s : String)
  | number (n : Int)
  | tuple (items : List Key)
  deriving Inhabited

namespace Key

mutual
def decEq : (a b : Key) → Decidable (a = b)
  | text s, text t =>
    if h : s = t then isTrue (congrArg text h) else isFalse fun e => h (text.inj e)
  | number m, number n =>
    if h : m = n then isTrue (congrArg number h) else isFalse fun e => h (number.inj e)
  | tuple xs, tuple ys =>
    match decEqItems xs ys with
    | isTrue h => isTrue (congrArg tuple h)
    | isFalse h => isFalse fun e => h (tuple.inj e)
  | text _, number _ | text _, tuple _ | number _, text _ | number _, tuple _
  | tuple _, text _ | tuple _, number _ => isFalse fun e => nomatch e

def decEqItems : (xs ys : List Key) → Decidable (xs = ys)
  | [], [] => isTrue rfl
  | [], _ :: _ | _ :: _, [] => isFalse fun e => nomatch e
  | x :: xs, y :: ys =>
    match decEq x y, decEqItems xs ys with
    | isTrue h, isTrue hs => isTrue (h ▸ hs ▸ rfl)
    | isFalse h, _ => isFalse fun e => h (List.cons.inj e).1
    | _, isFalse hs => isFalse fun e => hs (List.cons.inj e).2
end

instance : DecidableEq Key := decEq

mutual
/-- A key as messages show it. -/
def display : Key → String
  | text s => Text.quoted s
  | number n => toString n
  | tuple [] => "()"
  | tuple [k] => "(" ++ k.display ++ ",)"
  | tuple (k :: ks) => "(" ++ ", ".intercalate (k.display :: displayItems ks) ++ ")"

def displayItems : List Key → List String
  | [] => []
  | k :: ks => k.display :: displayItems ks
end

end Key

/-- Expressions and statements.

* `text` is literal shader text, a part of `raw` only;
* `shared key type init stem` stands for one variable of `type` initialized with `init`; equal keys
  share it, and its name starts with `stem`;
* `define` and `commit` are the statements: a variable definition and the final color. -/
inductive Term where
  | absent
  | text (s : String)
  | number (x : Binary64)
  | vec (type : VecType) (args : List Term)
  | ref (name : String)
  | call (func : String) (args : List Term)
  | swizzle (base : Term) (components : String)
  | raw (parts : List Term)
  | shared (key : Key) (type : String) (init : Term) (stem : String)
  | define (name type : String) (init : Term)
  | commit (value : Term)
  deriving Inhabited

namespace Term

/-- First part of a shared variable's name when none is given. -/
def defaultStem : String := "sample"

mutual
/-- Whether two terms count as one: the same structure over numbers that count as one. -/
def alike : Term → Term → Bool
  | absent, absent => true
  | text s, text t => s == t
  | number x, number y => x.alike y
  | vec t xs, vec u ys => t == u && alikeAll xs ys
  | ref m, ref n => m == n
  | call f xs, call g ys => f == g && alikeAll xs ys
  | swizzle a c, swizzle b d => a.alike b && c == d
  | raw xs, raw ys => alikeAll xs ys
  | shared k t i p, shared l u j q => k == l && t == u && i.alike j && p == q
  | define m t i, define n u j => m == n && t == u && i.alike j
  | commit v, commit w => v.alike w
  | _, _ => false

def alikeAll : List Term → List Term → Bool
  | [], [] => true
  | x :: xs, y :: ys => x.alike y && alikeAll xs ys
  | _, _ => false
end

def isAbsent : Term → Bool
  | absent => true
  | _ => false

def isNumber : Term → Bool
  | number _ => true
  | _ => false

/-- Names, shared variables and constant literals, which are cheap to repeat. -/
def isInline : Term → Bool
  | ref _ | number _ | shared .. => true
  | vec _ args => args.all isNumber
  | _ => false

/-- Parentheses around raw text, so that it binds as one operand. -/
def group : Term → Term
  | raw parts => raw [text "(", raw parts, text ")"]
  | t => t

def color (r g b a : Binary64) : Term := vec .vec4 [number r, number g, number b, number a]

/-- Opaque black. -/
def black : Term := color (.tenths 0) (.tenths 0) (.tenths 0) (.tenths 10)

mutual
/-- The count of terms within a term, itself included. -/
def size : Term → Nat
  | vec _ args | call _ args | raw args => 1 + sizeAll args
  | swizzle t _ | shared _ _ t _ | define _ _ t | commit t => 1 + t.size
  | _ => 1

def sizeAll : List Term → Nat
  | [] => 0
  | t :: ts => t.size + sizeAll ts
end

end Term

end ShaderFlow
