import Std.Time.DateTime.Timestamp
import TieredCompaction.CommandLine.Program
import TieredCompaction.Journal
/-!
The program: reads what the command needs, runs it, prints, and writes the log.
-/
namespace TieredCompaction.CommandLine

private def presentMillis : IO Nat := do
  return (← Std.Time.Timestamp.now).toMillisecondsSinceUnixEpoch.val.toNat

private def pathExists (path : String) : IO Bool := do
  try
    let _ ← IO.FS.Handle.mk path .read
    return true
  catch _ => return false

private def readAll (handle : IO.FS.Handle) : IO Opened := do
  try
    return .ok (← handle.readBinToEnd)
  catch _ => return .error .isFolder

private def load (path : String) : IO (Except PathError Opened) := do
  try
    return .ok (← readAll (← IO.FS.Handle.mk path .read))
  catch e =>
    match e with
    | .inappropriateType .. => return .error .notFolder
    | .invalidArgument .. => return .error .nameTooLong
    | _ => return .error .notFound

/-- The log names that are taken in a folder, up to the first free one. -/
private partial def takenNames (path : String) (n : Nat) : IO Folder := do
  let name := Journal.formerName n
  if ← pathExists (Node.pathIn path name) then
    return (name, .file "") :: (← takenNames path (n + 1))
  else return []

private def writeLog (path : String) (events : List Event) : IO Unit := do
  let log := Node.pathIn path Journal.logName
  if ← pathExists log then
    IO.FS.rename log (Node.pathIn path (Journal.freeName (← takenNames path 0)))
  let handle ← IO.FS.Handle.mk log .writeNew
  for event in events do
    handle.putStrLn (event.logLine (Moment.text ⟨← presentMillis⟩))

private def fileOf (arguments : List String) : Option String :=
  match read arguments with
  | .ok { command := .plan file _, .. } => file
  | _ => none

private def readsInput (arguments : List String) : Bool :=
  match read arguments with
  | .ok { command := .plan none _, .. } => true
  | _ => false

/-- Runs the program with the input and the file that its arguments name. -/
def runProgram (arguments : List String) : IO UInt32 := do
  let input ← if readsInput arguments then (← IO.getStdin).readBinToEnd else pure .empty
  let file ← match fileOf arguments with
    | some path => load path
    | none => pure (.error .notFound)
  let nanos ← IO.monoNanosNow
  let clock : Clock := { instant := nanos, moment := ⟨← presentMillis⟩ }
  let outcome := run { input, openFile := fun _ => file, clock } arguments
  outcome.output.forM IO.println
  outcome.error.forM IO.eprintln
  if let some (folder, events) := outcome.log then
    try
      unless events.isEmpty do writeLog folder events
    catch e => IO.eprintln (toString e)
  return outcome.code.toUInt32

end TieredCompaction.CommandLine

def main (arguments : List String) : IO UInt32 :=
  TieredCompaction.CommandLine.runProgram arguments
