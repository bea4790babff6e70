import ShaderFlow.Fragment
import ShaderFlow.Json.Fields

set_option autoImplicit false

namespace ShaderFlow

open Json (asText asList field)

namespace Key

mutual
def toJson : Key → Json
  | text s => .str s
  | number n => .int n
  | tuple ks => .arr (toJsonAll ks)

def toJsonAll : List Key → List Json
  | [] => []
  | k :: ks => k.toJson :: toJsonAll ks
end

mutual
def ofJson : Json → Except Error Key
  | .str s => .ok (text s)
  | .int n => .ok (number n)
  | .arr vs => return tuple (← ofJsonAll vs)
  | _ => Json.mismatch

def ofJsonAll : List Json → Except Error (List Key)
  | [] => .ok []
  | v :: vs => return (← ofJson v) :: (← ofJsonAll vs)
end

end Key

namespace Term

mutual
def toJson : Term → Json
  | absent => .null
  | text s => .str s
  | number x => .obj [("k", .str "float"), ("v", .str x.text)]
  | vec type args =>
    .obj [("k", .str "vec"), ("t", .str type.name), ("a", .arr (toJsonAll args))]
  | ref name => .obj [("k", .str "ref"), ("n", .str name)]
  | call func args => .obj [("k", .str "call"), ("f", .str func), ("a", .arr (toJsonAll args))]
  | swizzle t cs => .obj [("k", .str "swz"), ("b", t.toJson), ("c", .str cs)]
  | raw ps => .obj [("k", .str "raw"), ("p", .arr (toJsonAll ps))]
  | shared key type t stem =>
    .obj [("k", .str "gen"), ("key", key.toJson), ("t", .str type), ("i", t.toJson),
      ("p", .str stem)]
  | define name type t =>
    .obj [("k", .str "def"), ("n", .str name), ("t", .str type), ("i", t.toJson)]
  | commit t => .obj [("k", .str "set"), ("v", t.toJson)]

def toJsonAll : List Term → List Json
  | [] => []
  | t :: ts => t.toJson :: toJsonAll ts
end

/-- Work that reads terms. The state counts the numbers that are none, so that each of them differs
from the others. -/
abbrev ReadM := StateT Nat (Except Error)

def readNumber (v : Json) : ReadM Binary64 := do
  let x ← v.toNumber
  match v with
  | .str _ =>
    if x.isNan then
      let count ← get
      set (count + 1)
      return .otherNan (count + 1)
    else return x
  | _ => return x

/-- The vector type that a value names. -/
def vecType? : Json → Option VecType
  | .str s => VecType.ofName? s
  | _ => none

/-- Reads the term of an object, given a reader for the terms within it. -/
def readObject (inner : Json → ReadM Term) (v : Json) : ReadM Term := do
  let part (p : Json) : ReadM Term :=
    match p with
    | .str s => pure (text s)
    | p => inner p
  match ← asText (field v "k") with
  | "float" => return number (← readNumber (field v "v"))
  | "vec" =>
    let args ← (← asList (field v "a")).mapM inner
    let name := field v "t"
    match vecType? name with
    | some type => return vec type args
    | none => throw (.unsupportedVector name)
  | "ref" => return ref (← asText (field v "n"))
  | "call" => return call (← asText (field v "f")) (← (← asList (field v "a")).mapM inner)
  | "swz" => return swizzle (← inner (field v "b")) (← asText (field v "c"))
  | "raw" => return raw (← (← asList (field v "p")).mapM part)
  | "gen" =>
    let stem ← (field v "p").orElse asText defaultStem
    return shared (← Key.ofJson (field v "key")) (← asText (field v "t"))
      (← inner (field v "i")) stem
  | "def" => return define (← asText (field v "n")) (← asText (field v "t")) (← inner (field v "i"))
  | "set" => return commit (← inner (field v "v"))
  | _ => throw (.misuse .shape "no term")

/-- Reads a term that is nested to a depth at most. -/
def readTo : Nat → Json → ReadM Term
  | _, .null => pure absent
  | 0, _ => throw (.misuse .shape "no term")
  | depth + 1, v => readObject (readTo depth) v

def read (v : Json) : ReadM Term := readTo v.depth v

/-- Reads literal text or a term. -/
def readPart : Json → ReadM Term
  | .str s => pure (text s)
  | v => read v

def readAll (v : Json) : ReadM (List Term) := do (← asList v).mapM read

end Term

namespace Fragment

def toJson (f : Fragment) : Json :=
  .obj [("s", .arr (Term.toJsonAll f.statements)), ("e", f.value.toJson)]

def read (v : Json) : Term.ReadM Fragment :=
  return ⟨← Term.readAll (field v "s"), ← Term.read (field v "e")⟩

end Fragment

end ShaderFlow
