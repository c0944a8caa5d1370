import TieredCompaction.CommandLine.Arguments
import TieredCompaction.Options
/-!
The commands of the program: `plan` shows what would be merged, `simulate` flushes tables and
merges them.
-/
namespace TieredCompaction.CommandLine

/-- The options of the strategy, not yet checked for their ranges. -/
structure StrategyArguments where
  low : Float
  high : Float
  minSize : Nat
  least : Nat
  greatest : Nat

/-- How many tables of which size are flushed, and where the events are logged. -/
structure SimulationArguments where
  flushes : Nat
  flushSize : Nat
  workers : Nat
  logFolder : Option String

inductive Command where
  | help (usage : Usage) (form : HelpForm)
  | plan (file : Option String) (strategy : StrategyArguments)
  | simulate (simulation : SimulationArguments) (strategy : StrategyArguments)

/-- A command, and the greatest rank of the notices that are shown with it. -/
structure Invocation where
  level : Nat
  command : Command

def quiet : OptionSpec :=
  { name := "quiet", letter := some 'q', arity := .flag
    about := "Suppress all output except for errors. This overrides the -v flag" }

def verbose : OptionSpec :=
  { name := "verbose", letter := some 'v', arity := .counted
    about := "Turn on verbose output. Supply -v multiple times to increase verbosity" }

def help : OptionSpec :=
  { name := "help", letter := some 'h', arity := .help, about := "Print help" }

def lowOption : OptionSpec :=
  { name := "bucket-low", arity := .valued .number "BUCKET_LOW" (some "0.5")
    about := "Lower similarity ratio of a bucket" }

def highOption : OptionSpec :=
  { name := "bucket-high", arity := .valued .number "BUCKET_HIGH" (some "1.5")
    about := "Upper similarity ratio of a bucket" }

def minSizeOption : OptionSpec :=
  { name := "min-sstable-size", arity := .valued .size "SIZE" (some "50MiB")
    about := "Tables below this size are bucketed together (e.g., \"50MiB\")" }

def leastOption : OptionSpec :=
  { name := "min-threshold", arity := .valued .count "MIN_THRESHOLD" (some "4")
    about := "Minimum number of tables in a compaction" }

def greatestOption : OptionSpec :=
  { name := "max-threshold", arity := .valued .count "MAX_THRESHOLD" (some "32")
    about := "Maximum number of tables in a compaction" }

def flushesOption : OptionSpec :=
  { name := "flushes", letter := some 'n', arity := .valued .count "FLUSHES" (some "100")
    about := "Number of flushes" }

def flushSizeOption : OptionSpec :=
  { name := "flush-size", arity := .valued .size "SIZE" (some "4MiB")
    about := "Size of each flushed table (e.g., \"4MiB\")" }

def workersOption : OptionSpec :=
  { name := "threads", arity := .valued .count "THREADS" (some "2")
    about := "Number of merge threads" }

def logFolderOption : OptionSpec :=
  { name := "log-dir", arity := .valued .path "DIR" none
    about := "Directory to write a compaction log into" }

def strategyOptions : List OptionSpec :=
  [lowOption, highOption, minSizeOption, leastOption, greatestOption]

def simulationOptions : List OptionSpec :=
  [flushesOption, flushSizeOption, workersOption, logFolderOption]

/-- Two lists in turn, then the rest of the longer one. -/
def inTurn {α : Type} : List α → List α → List α
  | [], bs => bs
  | as, [] => as
  | a :: as, b :: bs => a :: b :: inTurn as bs

/-- The options of a command in the order of its help: its own ones and, in turn with them, those
that go with every command. -/
def withGeneral (own : List OptionSpec) : List OptionSpec :=
  inTurn own [quiet, verbose] ++ [help]

def planUsage : Usage :=
  { call := "stcs plan"
    about := "Show buckets and the compaction choice for a list of tables"
    more := some "Reads one table per line: `SIZE [READS_PER_SECOND]`, `#` starts a comment."
    options := withGeneral strategyOptions
    words := [{ name := "FILE", kind := .path, about := "Table list (reads stdin if omitted)" }] }

def simulateUsage : Usage :=
  { call := "stcs simulate"
    about := "Run a controller through a series of flushes with simulated merges"
    options := withGeneral (simulationOptions ++ strategyOptions) }

def helpUsage : Usage :=
  { call := "stcs help"
    about := "Print this message or the help of the given subcommand(s)"
    words :=
      [{ name := "COMMAND", kind := .path, many := true
         about := "Print help for the subcommand(s)" }] }

def mainUsage : Usage :=
  { call := "stcs"
    about := "CLI tool for exploring size-tiered compaction decisions"
    options := withGeneral []
    commands :=
      [("plan", planUsage.about), ("simulate", simulateUsage.about), ("help", helpUsage.about)] }

/-- The value of an option, or a standard one if none is given. -/
def optionD {α : Type} (given : List Given) (spec : OptionSpec) (standard : α)
    (read : List Char → Option α) : α :=
  ((valueOf given spec.name).bind fun value => read value.toList).getD standard

def readSize (s : List Char) : Option Nat :=
  (Size.read s).toOption

def strategyOf (given : List Given) : StrategyArguments :=
  { low := optionD given lowOption Options.standard.low Decimal.readNumber
    high := optionD given highOption Options.standard.high Decimal.readNumber
    minSize := optionD given minSizeOption Options.standard.minSize readSize
    least := optionD given leastOption Thresholds.standard.least Decimal.readWord
    greatest := optionD given greatestOption Thresholds.standard.greatest Decimal.readWord }

def simulationOf (given : List Given) : SimulationArguments :=
  { flushes := optionD given flushesOption 100 Decimal.readWord
    flushSize := optionD given flushSizeOption (4 * 1024 * 1024) readSize
    workers := optionD given workersOption 2 Decimal.readWord
    logFolder := valueOf given logFolderOption.name }

/-- The notices shown: errors if `quiet`, else warnings and one more level per `verbose`. What is
given behind the name of the command counts, and only without any what is given before it. -/
def shownLevel (before behind : List Given) : Nat :=
  let isVerbose (g : Given) : Bool := g.spec = verbose
  if (before ++ behind).any (·.spec = quiet) then 1
  else
    let counted := if behind.any isVerbose then behind else before
    min (2 + counted.countP isVerbose) 5

/-- The command of a name, and the options behind it. -/
def readCommand (name : String) (arguments : List String) : Except Stop (Command × List Given) :=
  match name with
  | "plan" => do
    let scanned ← scan planUsage false {} arguments
    return (.plan scanned.words.head? (strategyOf scanned.given), scanned.given)
  | "simulate" => do
    let scanned ← scan simulateUsage false {} arguments
    return (.simulate (simulationOf scanned.given) (strategyOf scanned.given), scanned.given)
  | "help" =>
    match arguments with
    | [] => .error (.help mainUsage .long)
    | ["plan"] => .error (.help planUsage .long)
    | ["simulate"] => .error (.help simulateUsage .long)
    | ["help"] => .error (.help helpUsage .long)
    | word :: _ => .error (.refused (.unexpectedWord word))
  | word => .error (.refused (.unexpectedWord word))

/-- The command that arguments stand for, with the level of its notices. -/
def readInvocation (arguments : List String) : Except Stop Invocation := do
  let scanned ← scan mainUsage true {} arguments
  match scanned.rest with
  | [] => .error (.refused .missingCommand)
  | name :: rest =>
    let (command, given) ← readCommand name rest
    return { level := shownLevel scanned.given given, command }

def read (arguments : List String) : Except UsageError Invocation :=
  match readInvocation arguments with
  | .ok invocation => .ok invocation
  | .error (.help usage form) => .ok { level := 0, command := .help usage form }
  | .error (.refused cause) => .error cause

end TieredCompaction.CommandLine
