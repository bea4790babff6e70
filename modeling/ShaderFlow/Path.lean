set_option autoImplicit false

namespace ShaderFlow

structure Path where
  root : String
  parts : List String
  deriving DecidableEq, Inhabited

namespace Path

/-- The root of a path's text: two slashes are a root of their own, more are one. -/
def rootOf : List Char → String
  | '/' :: '/' :: '/' :: _ => "/"
  | '/' :: '/' :: _ => "//"
  | '/' :: _ => "/"
  | _ => ""

def ofText (s : String) : Path :=
  ⟨rootOf s.toList, (s.splitOn "/").filter fun part => part != "" && part != "."⟩

def text (p : Path) : String :=
  if p.root = "" ∧ p.parts = [] then "." else p.root ++ "/".intercalate p.parts

instance : ToString Path := ⟨text⟩

/-- The last part. -/
def name (p : Path) : String := p.parts.getLast?.getD ""

def parent (p : Path) : Path := { p with parts := p.parts.dropLast }

/-- The part of the name from its last dot on. Dots that begin the name do not count. -/
def extension (p : Path) : String :=
  let reversed := (p.name.toList.dropWhile (· == '.')).reverse
  let tail := reversed.takeWhile (· != '.')
  if tail.length < reversed.length then String.ofList ('.' :: tail.reverse) else ""

/-- One step of a walk, with the parts so far last part first. At the root `..` leads nowhere, and
above the working directory it stays. -/
def follow (root : String) (walked : List String) (part : String) : List String :=
  if part != ".." then part :: walked
  else
    match walked with
    | [] => if root = "" then [".."] else []
    | ".." :: _ => ".." :: walked
    | _ :: rest => rest

/-- The path without the `..` parts that its text can work off. -/
def resolve (p : Path) : Path := { p with parts := (p.parts.foldl (follow p.root) []).reverse }

end Path

end ShaderFlow
