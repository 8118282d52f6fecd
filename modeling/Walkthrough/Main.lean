import Walkthrough.Packages
import Walkthrough.Rehearsal

/-!
# Command line

Runs the program on the terminal and on the disk. Nothing here decides anything: the replies come
from the standard input and from files, and what the program says goes to the standard streams.
Every text that comes in passes `Text.receive`, and every text that goes out passes `Text.scrub`.

There is no transport behind it, so every request fails; the flow can still be looked at, and its
manual steps can be completed.
-/

namespace Walkthrough.CommandLine

/-- What is remembered between two replies: the least level that is shown, and what a pipe has
brought. -/
structure Desk where
  floor : Level := .info
  piped : Option (Prompter × List (List Prompter.Event)) := none

def noTransport : Outcome :=
  .failed (.error "TypeError" "fetch failed" (some "no transport is available"))

/-- Writes a question that is not followed by the end of the line. -/
def put (q : Question) : IO Unit := do
  let out ← IO.getStdout
  out.putStr (Text.scrub q.text)
  out.flush

def dropLineEnd (line : String) : String :=
  String.ofList ((line.toList.reverse.dropWhile fun c => c == '\n' || c == '\r').reverse)

def askTerminal (q : Question) : IO (Option String) := do
  put q
  let line ← (← IO.getStdin).getLine
  return if line.isEmpty then none else some (Text.receive (dropLineEnd line))

def askPipe (desk : IO.Ref Desk) (q : Question) : IO (Option String) := do
  let (p, batches) ← match (← desk.get).piped with
    | some state => pure state
    | none => do
      let input ← (← IO.getStdin).readToEnd
      pure ({}, User.batchesOf (Text.receive input))
  let reader := p.next
  let (p, effects) := p.read
  match User.delivered? reader effects with
  | some line =>
    desk.modify fun d => { d with piped := some (p, batches) }
    return line
  | none =>
    put q
    let (line, p, batches) := User.await reader p batches
    desk.modify fun d => { d with piped := some (p, batches) }
    return line

def readFault : IO.Error → ReadFault
  | .noFileOrDirectory _ _ _ => .missing
  | .inappropriateType _ _ _ => .directory
  | e => .other e.toString

def readFile (path : String) : IO (Except ReadFault String) := do
  try
    return .ok (Text.receive (← IO.FS.readFile (Text.scrub path)))
  catch e =>
    return .error (readFault e)

def saveFile (directory file text : String) : IO (Option String) := do
  try
    IO.FS.createDirAll (Text.scrub directory)
    IO.FS.writeFile (Text.scrub file) (Text.scrub text)
    return none
  catch e =>
    return some e.toString

def say (desk : IO.Ref Desk) (n : Note) : IO Unit := do
  match n.shown? (← desk.get).floor with
  | none => return
  | some (.log, s) => (← IO.getStdout).putStrLn (Text.scrub s)
  | some (_, s) => (← IO.getStderr).putStrLn (Text.scrub s)

def host (desk : IO.Ref Desk) (atTerminal : Bool) : Talk.Host IO where
  send _ := pure noTransport
  ask q := if atTerminal then askTerminal q else askPipe desk q
  note := say desk
  floor level := desk.modify fun d => { d with floor := level }
  read := readFile
  save := saveFile

/-- The environment, as far as the program and its packages look at it. -/
def environment : IO (Record String) := do
  let names := EnvironmentFile.locationName :: Settings.names
  let values ← names.mapM fun name => do
    return (← IO.getEnv name).map fun value => (name, Text.receive value)
  return Record.ofList (values.filterMap id)

def exitCode : Ending → UInt32
  | .success => 0
  | .failure => 1

/-- Goes on for as long as the user gives lines. -/
def finish (host : Talk.Host IO) (start : Program.Moment) : IO Ending := do
  let mut moment := start
  let mut last := Ending.success
  repeat
    match moment with
    | .ended ending =>
      last := ending
      break
    | .talking s opts => moment ← (Program.turn s opts).run host
  return last

def start (words : List String) : IO UInt32 := do
  let desk ← IO.mkRef {}
  let host := host desk (← (← IO.getStdin).isTty)
  let directory ← IO.currentDir
  let words := words.map Text.receive
  let opening :=
    Program.opening .builtIn (Text.receive directory.toString) (← environment) words
  return exitCode (← finish host (← opening.run host))

end Walkthrough.CommandLine

def main (words : List String) : IO UInt32 :=
  Walkthrough.CommandLine.start words
