import ShaderFlow.Cli.Number
import ShaderFlow.Files

set_option autoImplicit false

/-
Options may stand anywhere among the other arguments and start with one dash for a letter or two for
a word. An option takes the argument after it whatever that is, or what follows an equals sign. Two
dashes alone end the options.
-/

namespace ShaderFlow.Cli

/-- Why a command line is not run. -/
inductive Refusal where
  | usage
  | help
  deriving DecidableEq, Inhabited

structure Switch where
  long : String
  short : Option Char := none
  takesValue : Bool := false

/-- The options given, each with its value, and the other arguments. -/
structure Parsed where
  given : List (String × String) := []
  others : List String := []

/-- The switch every command has. -/
def helpSwitch : Switch := { long := "help" }

def switchOf? (switches : List Switch) (long : String) : Option Switch :=
  (helpSwitch :: switches).find? (·.long == long)

def shortOf? (switches : List Switch) (c : Char) : Option Switch :=
  switches.find? (·.short == some c)

/-- Reads the letters after one dash. The last result is whether the next argument was taken. -/
def readShort (switches : List Switch) (next : Option String) :
    List Char → Except Refusal (List (String × String) × Bool)
  | [] => .ok ([], false)
  | c :: rest =>
    match shortOf? switches c with
    | none => .error .usage
    | some s =>
      if s.takesValue then
        if rest.isEmpty then
          match next with
          | some value => .ok ([(s.long, value)], true)
          | none => .error .usage
        else .ok ([(s.long, String.ofList rest)], false)
      else do
        let (given, taken) ← readShort switches next rest
        return ((s.long, "") :: given, taken)

/-- Splits at the first equals sign. -/
def splitValue (cs : List Char) : String × Option String :=
  match cs.dropWhile (· != '=') with
  | _ :: value => (String.ofList (cs.takeWhile (· != '=')), some (String.ofList value))
  | [] => (String.ofList cs, none)

/-- Reads a word after two dashes. -/
def readLong (switches : List Switch) (next : Option String) (word : List Char) :
    Except Refusal ((String × String) × Bool) :=
  let (long, value) := splitValue word
  match switchOf? switches long with
  | none => .error .usage
  | some s =>
    if s.takesValue then
      match value, next with
      | some v, _ => .ok ((long, v), false)
      | none, some v => .ok ((long, v), true)
      | none, none => .error .usage
    else if value.isSome then .error .usage
    else .ok ((long, ""), false)

/-- Reads one option: what it gives, and how many of the next arguments it takes. -/
def readOption (switches : List Switch) (next : Option String) :
    List Char → Except Refusal (List (String × String) × Nat)
  | '-' :: word => do
    let (one, taken) ← readLong switches next word
    return ([one], taken.toNat)
  | letters => do
    let (given, taken) ← readShort switches next letters
    return (given, taken.toNat)

/-- Reads arguments. Unless options may come anywhere, the first other argument ends them. -/
def readArguments (switches : List Switch) (anywhere : Bool) :
    List String → Except Refusal Parsed
  | [] => .ok {}
  | arg :: rest =>
    match arg.toList with
    | ['-', '-'] => .ok { others := rest }
    | '-' :: c :: letters => do
      let (given, taken) ← readOption switches rest.head? (c :: letters)
      let more ← readArguments switches anywhere (rest.drop taken)
      return { more with given := given ++ more.given }
    | _ =>
      if anywhere then do
        let more ← readArguments switches anywhere rest
        return { more with others := arg :: more.others }
      else .ok { others := arg :: rest }
termination_by args => args.length
decreasing_by
  · simp only [List.length_drop, List.length_cons]; omega
  · simp only [List.length_cons]; omega

def parse (switches : List Switch) (anywhere : Bool) (args : List String) :
    Except Refusal Parsed := do
  let parsed ← readArguments switches anywhere args
  if parsed.given.any (·.1 == "help") then throw .help
  return parsed

namespace Parsed

def isGiven (p : Parsed) (long : String) : Bool := p.given.any (·.1 == long)

/-- The value of an option; the last one counts. -/
def value? (p : Parsed) (long : String) : Option String :=
  (p.given.filter (·.1 == long)).getLast?.map (·.2)

/-- The value of an option, read; one that cannot be read is refused. -/
def read? {α : Type} (p : Parsed) (long : String) (read : String → Option α) :
    Except Refusal (Option α) :=
  match p.value? long with
  | none => .ok none
  | some s =>
    match read s with
    | some a => .ok (some a)
    | none => .error .usage

def int? (p : Parsed) (long : String) : Except Refusal (Option Int) := p.read? long readInteger?

def number? (p : Parsed) (long : String) : Except Refusal (Option Binary64) :=
  p.read? long readNumber?

/-- The path that an argument names, unless no file can have it whatever there is. -/
def pathOf? (s : String) : Option Path :=
  let p := Path.ofText s
  match Files.refusal? p with
  | some .notText | some .nullCharacter => none
  | _ => some p

def path? (p : Parsed) (long : String) : Except Refusal (Option Path) := p.read? long pathOf?

/-- The other arguments as paths. -/
def paths (p : Parsed) : Except Refusal (List Path) :=
  match p.others.mapM pathOf? with
  | some paths => .ok paths
  | none => .error .usage

end Parsed

end ShaderFlow.Cli
