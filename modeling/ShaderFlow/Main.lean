import ShaderFlow.Cli.Run
import ShaderFlow.Text.Line
import Std.Time.Format

set_option autoImplicit false

namespace ShaderFlow.Cli

open Std.Time

/-- The bytes of a file, if it can be read. -/
def bytesAt? (p : Path) : IO (Option (List UInt8)) := do
  match ← (IO.FS.readBinFile (Text.plain p.text)).toBaseIO with
  | .ok bytes => return some bytes.toList
  | .error _ => return none

def keep (fs : Files) (changed : Except Error Files) : Files :=
  match changed with
  | .ok fs => fs
  | .error _ => fs

/-- The tree of the files that a command names. -/
def gatherFiles (command : Command) : IO Files := do
  let mut fs : Files := {}
  for p in command.products do
    fs := (fs.makeDirectory p.parent).1
  for p in command.sources ++ command.products do
    if let some bytes ← bytesAt? p then
      fs := (fs.makeDirectory p.parent).1
      fs := keep fs (fs.write p bytes 0)
  return fs

/-- The path of a place, as text. -/
def placeText (place : Place) : String :=
  Text.plain (match place with
    | "/" :: parts => "/" ++ "/".intercalate parts
    | parts => "/".intercalate parts)

/-- Writes the entries that are new or changed. -/
def writeChanges (before after : Files) : IO Unit := do
  for (place, entry) in after.entries do
    if before.at? place != some entry then
      match entry with
      | .directory => IO.FS.createDirAll (placeText place)
      | .file bytes _ => IO.FS.writeBinFile (placeText place) ⟨bytes.toArray⟩

/-- Carries out what a command did. Files come first, so that only a success is reported as one. -/
def showState (before : Files) (s : State) : IO Unit := do
  writeChanges before s.files
  for e in s.events do
    IO.eprintln (e.level.name ++ " | " ++ Text.plain e.message)
  IO.print (Text.plain s.printed)
  (← IO.getStdout).flush

/-- The settings of the environment. -/
def environment : IO (List (String × String)) := do
  let given ← Config.variableNames.mapM fun name => return (name, ← IO.getEnv name)
  return given.filterMap fun (name, value) => value.map fun s => (name, Text.ofChars s.toList)

def timeText : IO String := do
  let now := DateTime.ofTimestamp (← Timestamp.now) TimeZone.ZoneRules.UTC
  return now.format "uuuu-MM-dd HH:mm:ss" ++ " UTC"

/-- A device on a machine without graphics: the first call fails. -/
def noDevice : Device := { faultAt := some 0 }

/-- Looks at a watched file again and again. -/
partial def follow (s : State) : IO Unit := do
  IO.sleep 500
  match s.watch with
  | none => return
  | some w =>
    match ← bytesAt? w.file with
    | none => follow s
    | some bytes =>
      if (w.files.read w.file).toOption == some bytes then follow s
      else
        let after := s.noticeChange w bytes
        showState (keep s.files (s.files.write w.file bytes 0)) after
        follow after

end ShaderFlow.Cli

def main (args : List String) : IO UInt32 := do
  let args := args.map fun arg => ShaderFlow.Text.ofChars arg.toList
  let named := (ShaderFlow.Cli.readLine args).toOption
  let files ← match named with
    | some command => ShaderFlow.Cli.gatherFiles command
    | none => pure {}
  let world : ShaderFlow.Cli.World := {
    files
    environment := ← ShaderFlow.Cli.environment
    device := ShaderFlow.Cli.noDevice
    time := ← ShaderFlow.Cli.timeText }
  let done := ShaderFlow.Cli.run world args
  ShaderFlow.Cli.showState files done.state
  if let some e := done.failure then
    IO.eprintln (ShaderFlow.Text.plain e.message)
  if done.state.watch.isSome then
    ShaderFlow.Cli.follow done.state
  return done.code.toUInt32
