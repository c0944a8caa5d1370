import TieredCompaction.Folder
import TieredCompaction.Notice
/-!
The log of events in a folder. It is opened with the first line of a session: a log that is there
already moves to the first free numbered name, so that no line ever written is lost.
-/
namespace TieredCompaction

structure Journal where
  /-- The folder of the log, once it is opened. -/
  opened : Option Place := none
  /-- When a failure was last reported. -/
  reportedAt : Option Int := none
  deriving DecidableEq, Repr

/-- The notices of a journal; paths are given as texts. -/
inductive JournalNotice where
  | rotating (path target : String)
  | writeFailed (cause : PathError)
  deriving DecidableEq, Repr

namespace JournalNotice

def level : JournalNotice → Level
  | rotating .. => .debug
  | writeFailed _ => .error

def message : JournalNotice → String
  | rotating path target => s!"Rotating {path} to {target}"
  | writeFailed cause => s!"Could not write to the compaction log: {cause.detail}"

def line (n : JournalNotice) : String :=
  n.level.line n.message

end JournalNotice

namespace Journal

def logName : String := "compaction.log"

def formerName (n : Nat) : String :=
  s!"compaction-{n}.log"

/-- A name without a number, for when none is free. -/
def lastName : String := "compaction-rotated.log"

/-- The name that the present log moves to: the first free one. Among one more names than there
are entries, one is free. -/
def freeName (d : Folder) : String :=
  match (List.range (d.length + 1)).find? fun n => !d.has (formerName n) with
  | some n => formerName n
  | none => lastName

/-- Moves the present log out of the way. -/
def moveLog (d : Folder) : Folder :=
  if d.has logName then d.rename logName (freeName d) else d

def startNotices (path : String) (d : Folder) : List JournalNotice :=
  if d.has logName then
    [.rotating (Node.pathIn path logName) (Node.pathIn path (freeName d))]
  else []

/-- The shortest time between two reports of failures, in nanoseconds. -/
def reportInterval : Int := 60000000000

def reports (j : Journal) (now : Int) : Bool :=
  match j.reportedAt with
  | some last => reportInterval ≤ now - last
  | none => true

/-- Drops a line that cannot be written. -/
def fail (j : Journal) (now : Int) (cause : PathError) : Journal × List JournalNotice :=
  if j.reports now then ({ j with reportedAt := some now }, [.writeFailed cause]) else (j, [])

/-- Adds a line to the log that is opened in a folder. -/
def addLine (root : Node) (place : Place) (line : String) : Node :=
  match root.get? place with
  | some (.folder d) => root.set place (.folder (Folder.append d logName (line ++ "\n")))
  | _ => root

/-- Starts a log with its first line. The path is looked up again once the present log has moved,
as it may have led there through that log. -/
def start (j : Journal) (root : Node) (path : String) (line : String) :
    Node × List JournalNotice × Except PathError Journal :=
  match root.folderFor path logName with
  | .ok (place, d) =>
    let root := root.set place (.folder (moveLog d))
    let notices := startNotices path d
    match root.folderFor path logName with
    | .ok (place, d) =>
      (root.set place (.folder (d.put logName (.file (line ++ "\n")))), notices,
        .ok { j with opened := some place })
    | .error cause => (root, notices, .error cause)
  | .error cause => (root, [], .error cause)

def write (j : Journal) (root : Node) (path : String) (now : Int) (line : String) :
    Journal × Node × List JournalNotice :=
  match j.opened with
  | some place => (j, addLine root place line, [])
  | none =>
    match j.start root path line with
    | (root, notices, .ok j) => (j, root, notices)
    | (root, notices, .error cause) =>
      let (j, more) := j.fail now cause
      (j, root, notices ++ more)

/-- Writes the lines of a session, all at one time. -/
def writeAll (path : String) (now : Int) : Journal → Node → List String → Node × List JournalNotice
  | _, root, [] => (root, [])
  | j, root, line :: rest =>
    let (j, root, notices) := j.write root path now line
    let (root, others) := writeAll path now j root rest
    (root, notices ++ others)

end Journal

end TieredCompaction
