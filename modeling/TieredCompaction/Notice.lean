import TieredCompaction.Job
import TieredCompaction.Store
/-!
What a compactor tells its operator, with the weight and the wording of each notice.
-/
namespace TieredCompaction

inductive Level where
  | error
  | warn
  | info
  | debug
  | trace
  deriving DecidableEq, Repr

namespace Level

def rank : Level → Nat
  | error => 1
  | warn => 2
  | info => 3
  | debug => 4
  | trace => 5

def name : Level → String
  | error => "ERROR"
  | warn => "WARN"
  | info => "INFO"
  | debug => "DEBUG"
  | trace => "TRACE"

def line (level : Level) (message : String) : String :=
  level.name ++ " " ++ message

end Level

inductive Notice (R : Type) where
  | opened (store : StoreName)
  | closed (store : StoreName)
  | enabled (store : StoreName)
  | disabled (store : StoreName)
  | thresholds (store : StoreName) (least greatest : Nat)
  | emptyFlush (table : Table)
  | liveFlush (table : Table)
  | flushed (store : StoreName) (tables : Nat)
  | emptyOutput (table : Table)
  | liveOutput (table : Table)
  | merged (store : StoreName) (removed bytesIn outputs bytesOut millis : Nat)
  | failed (store : StoreName) (tables : Nat) (cause : Failure)
  | awaitingTables
  | consulting
  | grouped (tables buckets : Nat)
  | inFlight (tables : List Table)
  | idle
  | submitting (job : Job R)
  | completedLate (job : Nat)
  | failedLate (job : Nat)
  | unresolved (job : Nat)
  | workerLost

namespace Notice

def level {R : Type} : Notice R → Level
  | failed .. | workerLost => .error
  | liveFlush _ | liveOutput _ | inFlight _ | unresolved _ => .warn
  | flushed .. | awaitingTables | consulting | grouped .. | idle => .trace
  | _ => .debug

def message : Notice Float → String
  | opened store =>
    s!"Opening compaction controller of {store.text} using {Options.strategyName}"
  | closed store => s!"Dropping compaction controller of {store.text}"
  | enabled store => s!"compactor: enabled compaction of {store.text}"
  | disabled store => s!"compactor: disabled compaction of {store.text}"
  | thresholds store least greatest =>
    s!"compactor: thresholds of {store.text} are now {least}/{greatest}"
  | emptyFlush table => s!"compactor: ignoring empty flushed table {table.detail}"
  | liveFlush table => s!"compactor: table {table.detail} is already live"
  | flushed store tables => s!"compactor: {store.text} flushed {tables} tables"
  | emptyOutput table => s!"compactor: ignoring empty merge output {table.detail}"
  | liveOutput table => s!"compactor: merge output {table.detail} is already live"
  | merged store removed bytesIn outputs bytesOut millis =>
    s!"compactor: {store.text} merged {removed} tables ({bytesIn}B) into {outputs} tables " ++
      s!"({bytesOut}B) in {millis}ms"
  | failed store tables cause =>
    s!"compactor: compaction of {tables} tables of {store.text} failed: {cause.message}"
  | awaitingTables => "compactor: acquiring table set lock"
  | consulting => "compactor: consulting compaction strategy"
  | grouped tables buckets => s!"tiered: {tables} tables in {buckets} buckets"
  | inFlight tables =>
    s!"compactor: strategy chose in-flight tables {bracketed (tables.map Table.detail)}"
  | idle => "compactor: chose to do nothing"
  | submitting job => s!"compactor: submitting {job.detail}"
  | completedLate job => s!"compactor: task #{job} completed after controller was dropped"
  | failedLate job => s!"compactor: task #{job} failed after controller was dropped"
  | unresolved job => s!"compactor: task #{job} was dropped without being resolved"
  | workerLost => "compactor: worker thread panicked"

def line (n : Notice Float) : String :=
  n.level.line n.message

end Notice

end TieredCompaction
