import ShaderFlow.Error
import ShaderFlow.Path
import ShaderFlow.Text.Utf8

set_option autoImplicit false

namespace ShaderFlow

inductive Entry where
  | directory
  | file (bytes : List UInt8) (modified : Int)
  deriving DecidableEq, Inhabited

/-- A place in the tree: the names that lead to it. -/
abbrev Place := List String

structure Files where
  entries : List (Place × Entry) := []

namespace Files

/-- The most bytes that a name may have. -/
def nameLimit : Nat := 255

/-- The bytes that a path has to stay below. -/
def pathLimit : Nat := 4096

/-- The place of the root, which no part of a path is called like. -/
def rootPlace : Place := ["/"]

/-- What is at a place. The working directory and the root are always there. -/
def at? (fs : Files) (place : Place) : Option Entry :=
  if place.isEmpty || place == rootPlace then some .directory else fs.entries.lookup place

/-- The place above another. Nothing is above the working directory and the root. -/
def above (place : Place) : Place := if place == rootPlace then place else place.dropLast

/-- The place that one part of a path leads to from a directory. -/
def enter (place : Place) (part : String) : Except FileFault Place :=
  if nameLimit < Text.byteCount part then .error .nameTooLong
  else if part = "." then .ok place
  else if part = ".." then .ok (above place)
  else .ok (place ++ [part])

/-- Follows the parts of a path. Each part but the last has to lead to a directory. -/
def locate (fs : Files) : Place → List String → Except FileFault Place
  | place, [] => .ok place
  | place, part :: rest =>
    match fs.at? place with
    | some .directory => do fs.locate (← enter place part) rest
    | some (.file ..) => .error .notDirectory
    | none => .error .missing

/-- Why no file at all can be at a path. -/
def refusal? (p : Path) : Option FileFault :=
  let text := p.text
  if Text.isUnnameable text then some .notText
  else if text.toList.contains '\x00' then some .nullCharacter
  else if pathLimit ≤ Text.byteCount text then some .nameTooLong
  else none

/-- The place of a path. -/
def place (fs : Files) (p : Path) : Except FileFault Place :=
  match refusal? p with
  | some fault => .error fault
  | none => fs.locate (if p.root = "" then [] else rootPlace) p.parts

def find? (fs : Files) (p : Path) : Option Entry :=
  match fs.place p with
  | .ok place => fs.at? place
  | .error _ => none

def isDirectory (fs : Files) (p : Path) : Bool := fs.find? p == some .directory

def fail {α : Type} (fault : FileFault) (p : Path) : Except Error α := .error (.file fault p.text)

/-- Whether something is at a path. A name that is too long for a file is a failure, while a path
that no file can have for another reason leads to nothing. -/
def contains (fs : Files) (p : Path) : Except Error Bool :=
  match fs.place p with
  | .ok place => .ok (fs.at? place).isSome
  | .error .nameTooLong => fail .nameTooLong p
  | .error _ => .ok false

/-- The bytes of a file. -/
def read (fs : Files) (p : Path) : Except Error (List UInt8) :=
  match fs.place p with
  | .error fault => fail fault p
  | .ok place =>
    match fs.at? place with
    | some (.file bytes _) => .ok bytes
    | some .directory => fail .isDirectory p
    | none => fail .missing p

/-- When a file was changed last. The times of directories are not kept, so that a directory at the
path has none. -/
def modified? (fs : Files) (p : Path) : Option Int :=
  match fs.find? p with
  | some (.file _ time) => some time
  | _ => none

/-- Puts an entry at a place, in place of what is there. -/
def put (fs : Files) (place : Place) (entry : Entry) : Files :=
  if fs.entries.any (·.1 == place) then
    { fs with entries := fs.entries.map fun e => if e.1 == place then (place, entry) else e }
  else { fs with entries := fs.entries ++ [(place, entry)] }

/-- Writes a file in a directory that is there. -/
def write (fs : Files) (p : Path) (bytes : List UInt8) (time : Int) : Except Error Files :=
  match fs.place p with
  | .error fault => fail fault p
  | .ok place =>
    match fs.at? place with
    | some .directory => fail .isDirectory p
    | _ =>
      match fs.at? place.dropLast with
      | some .directory => .ok (fs.put place (.file bytes time))
      | some (.file ..) => fail .notDirectory p
      | none => fail .missing p

/-- The bytes of a text. -/
def encode (text : String) : Except Error (List UInt8) :=
  match Text.utf8Encode? text with
  | some bytes => .ok bytes
  | none => .error .unencodable

/-- Writes a text to a file. The file is emptied first, and stays so if the text has no bytes. -/
def writeText (fs : Files) (p : Path) (text : String) : Files × Except Error Unit :=
  match fs.write p [] 0, encode text with
  | .error e, _ => (fs, .error e)
  | .ok emptied, .error e => (emptied, .error e)
  | .ok emptied, .ok bytes =>
    match emptied.write p bytes 0 with
    | .error e => (emptied, .error e)
    | .ok written => (written, .ok ())

/-- The times that a file can be given are counted in nanoseconds, and their seconds fit a signed
word of 64 bits. -/
def timeLimit : Int := Nat.pow 2 63 * Nat.pow 10 9

/-- The time that a value gives. -/
def timeOf : Json → Except Error Int
  | .int n =>
    if -timeLimit ≤ n ∧ n < timeLimit then .ok n
    else .error (.misuse .range "timestamp out of range")
  | .bool b => .ok (if b then 1 else 0)
  | _ => .error (.misuse .shape "not a time")

/-- The present: later than every time that a file can be given, and than every time in the tree. -/
def now (fs : Files) : Int :=
  fs.entries.foldl (fun latest e =>
    match e.2 with
    | .file _ time => max latest (time + 1)
    | .directory => latest) timeLimit

/-- Sets the time of a file's last change. -/
def touch (fs : Files) (p : Path) (time : Int) : Except Error Files :=
  match fs.place p with
  | .error fault => fail fault p
  | .ok place =>
    match fs.at? place with
    | some (.file bytes _) => .ok (fs.put place (.file bytes time))
    | some .directory => .ok fs
    | none => fail .missing p

/-- Writes a text to a file and then gives it a time. When there is no such time, the file has the
text all the same, and was changed at present. -/
def writeAt (fs : Files) (p : Path) (text : String) (time : Json) : Files × Except Error Unit :=
  match (do fs.write p (← encode text) fs.now : Except Error Files) with
  | .error e => (fs, .error e)
  | .ok written =>
    match (do written.touch p (← timeOf time) : Except Error Files) with
    | .error e => (written, .error e)
    | .ok touched => (touched, .ok ())

def remove (fs : Files) (p : Path) : Except Error Files :=
  match fs.place p with
  | .error fault => fail fault p
  | .ok place =>
    match fs.at? place with
    | some (.file ..) => .ok { fs with entries := fs.entries.filter (·.1 != place) }
    | some .directory => fail .isDirectory p
    | none => fail .missing p

/-- Makes one directory. -/
def makeOne (fs : Files) (p : Path) : Except FileFault Files :=
  match fs.place p with
  | .error fault => .error fault
  | .ok place =>
    match fs.at? place with
    | some _ => .error .exists
    | none =>
      match fs.at? place.dropLast with
      | some .directory => .ok (fs.put place .directory)
      | some (.file ..) => .error .notDirectory
      | none => .error .missing

/-- The tree after a directory was made or could not be. One that is there already is no failure. -/
def settle (fs : Files) (p : Path) : Except FileFault Files → Files × Except Error Unit
  | .ok made => (made, .ok ())
  | .error fault => (fs, if fs.isDirectory p then .ok () else fail fault p)

/-- Makes the directory of a list of parts, given last part first, unless it is there. -/
def makeParts (fs : Files) (root : String) : List String → Files × Except Error Unit
  | [] => (fs, .ok ())
  | part :: above =>
    let p : Path := ⟨root, (part :: above).reverse⟩
    match fs.makeOne p with
    | .error .missing =>
      match fs.makeParts root above with
      | (fs, .ok ()) => fs.settle p (fs.makeOne p)
      | (fs, .error e) => (fs, .error e)
    | made => fs.settle p made

/-- Makes a directory and those above it, unless they are there. What was made stays also when the
rest fails. -/
def makeDirectory (fs : Files) (p : Path) : Files × Except Error Unit :=
  fs.makeParts p.root p.parts.reverse

/-- Writes a file, making the directory for it. -/
def writeMaking (fs : Files) (p : Path) (bytes : List UInt8) : Files × Except Error Unit :=
  match fs.makeDirectory p.parent with
  | (fs, .error e) => (fs, .error e)
  | (fs, .ok ()) =>
    match fs.write p bytes 0 with
    | .error e => (fs, .error e)
    | .ok fs => (fs, .ok ())

/-- Makes a new directory of a list of parts, given last part first, and what is missing above it.
Parts that lead back are followed once what is before them is made. -/
def makeNewParts (fs : Files) (root : String) : List String → Files × Except FileFault Unit
  | [] => (fs, .error (if root = "" then .missing else .exists))
  | part :: above =>
    let p : Path := ⟨root, (part :: above).reverse⟩
    let finish (fs : Files) : Files × Except FileFault Unit :=
      match fs.makeOne p with
      | .ok made => (made, .ok ())
      | .error fault => (fs, .error fault)
    if above.isEmpty || (fs.find? ⟨root, above.reverse⟩).isSome then finish fs
    else
      match fs.makeNewParts root above with
      | (fs, .ok ()) | (fs, .error .exists) => if part = "." then (fs, .ok ()) else finish fs
      | (fs, .error fault) => (fs, .error fault)

/-- Makes a directory that must not be there yet, at a path exactly as it is written. -/
def makeNewDirectory (fs : Files) (path : String) : Files × Except Error Unit :=
  let p : Path := ⟨Path.rootOf path.toList, (path.splitOn "/").filter (· != "")⟩
  match fs.makeNewParts p.root p.parts.reverse with
  | (fs, .ok ()) => (fs, .ok ())
  | (fs, .error fault) => (fs, fail fault p)

end Files

end ShaderFlow
