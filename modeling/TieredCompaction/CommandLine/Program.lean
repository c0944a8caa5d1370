import TieredCompaction.CommandLine.Command
import TieredCompaction.CommandLine.Help
import TieredCompaction.CommandLine.Plan
import TieredCompaction.CommandLine.Simulation
import TieredCompaction.Folder
/-!
What the program does with its arguments: what it prints, with which code it ends, and which events
it logs where.
-/
namespace TieredCompaction.CommandLine

/-- The result of opening a file: its bytes, or why they cannot be read. -/
abbrev Opened := Except PathError ByteArray

structure Environment where
  input : ByteArray
  openFile : String → Except PathError Opened
  clock : Clock

structure Outcome where
  code : Nat := 0
  output : List String := []
  error : List String := []
  /-- The folder of the log and the events for it. -/
  log : Option (String × List Event) := none

def Outcome.failed (message : String) : Outcome :=
  { code := 1, error := [message] }

/-- The options and thresholds, once they are in range. -/
def StrategyArguments.check (a : StrategyArguments) :
    Except ConfigError (Options Float × Thresholds) := do
  let o ← Options.make a.low a.high a.minSize
  let t ← Thresholds.make a.least a.greatest
  return (o, t)

def readRows (opened : Opened) : Except TableList.ReadError (List (TableList.Row Float)) :=
  match opened with
  | .ok bytes => TableList.read .standard (Text.byteLines bytes)
  | .error e => .error (.unreadable e.message)

def planFor (o : Options Float) (t : Thresholds) (clock : Clock) (opened : Opened) : Outcome :=
  match readRows opened with
  | .error e => .failed ("Invalid table list: " ++ e.message)
  | .ok rows =>
    let (shelf, tables) := Plan.shelve GivenRate.ofFloat clock.instant rows
    { output := (Plan.make o t shelf clock.instant tables).lines }

def runPlan (env : Environment) (file : Option String) (o : Options Float) (t : Thresholds) :
    Outcome :=
  match file with
  | none => planFor o t env.clock (.ok env.input)
  | some path =>
    match env.openFile path with
    | .error e => .failed s!"Could not open {path}: {e.message}"
    | .ok opened => planFor o t env.clock opened

def runSimulation (env : Environment) (level : Nat) (a : SimulationArguments) (o : Options Float)
    (t : Thresholds) : Outcome :=
  let s := Simulation.run o t env.clock level a.flushes a.flushSize
  { output := Simulation.lines s a.flushSize
    error := s.notices.map Notice.line
    log := a.logFolder.map fun folder => (folder, s.compactor.events) }

def runCommand (env : Environment) (level : Nat) : Command → Outcome
  | .help usage form => { output := usage.help form }
  | .plan file strategy =>
    match strategy.check with
    | .error cause => .failed ("Invalid options: " ++ (Failure.config cause).message)
    | .ok (o, t) => runPlan env file o t
  | .simulate simulation strategy =>
    match strategy.check with
    | .error cause => .failed ("Invalid options: " ++ (Failure.config cause).message)
    | .ok (o, t) => runSimulation env level simulation o t

/-- Runs the program. Arguments that are refused end it with code 2. -/
def run (env : Environment) (arguments : List String) : Outcome :=
  match read arguments with
  | .error _ => { code := 2 }
  | .ok invocation => runCommand env invocation.level invocation.command

end TieredCompaction.CommandLine
