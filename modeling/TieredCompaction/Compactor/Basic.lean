import TieredCompaction.Event
import TieredCompaction.Notice
import TieredCompaction.TableSet
/-!
The compactor of a store, and the site at which it works: what it owns together with what it shares
with others (counters, IDs, the shelf of tables). All operations are functions on sites.
-/
namespace TieredCompaction

/-- What a compactor owns, its queue of jobs and the history of its reports included. -/
structure Compactor (R : Type) where
  store : StoreName
  options : Options R
  thresholds : Thresholds
  tables : TableSet := .empty
  enabled : Bool := false
  lastPending : Nat := 0
  nextJob : Nat := 0
  intake : Intake := .keep
  /-- Jobs in the queue that are not resolved, oldest first. -/
  waiting : List (Job R) := []
  /-- All jobs ever handed to the queue, oldest first. -/
  submitted : List (Job R) := []
  /-- All events ever recorded, oldest first. -/
  events : List Event := []

structure Clock where
  instant : Int
  moment : Moment
  deriving DecidableEq, Repr

/-- A compactor with what its operations touch. -/
structure Site (R : Type) where
  compactor : Compactor R
  counters : Counters
  ids : IdSource
  shelf : Shelf R
  clock : Clock
  /-- The notices given so far, oldest first. -/
  notices : List (Notice R)

namespace Site

variable {R : Type} [Quantity R]

def note (s : Site R) (n : Notice R) : Site R :=
  { s with notices := s.notices ++ [n] }

def noteAll (s : Site R) (ns : List (Notice R)) : Site R :=
  { s with notices := s.notices ++ ns }

def record (s : Site R) (report : Report) : Site R :=
  { s with
    compactor.events := s.compactor.events ++ [{ store := s.compactor.store, report }] }

def setTables (s : Site R) (tables : TableSet) : Site R :=
  { s with compactor.tables := tables }

def candidates (s : Site R) : List Table :=
  s.compactor.tables.candidates

def buckets (s : Site R) : List (Bucket Table) :=
  s.compactor.options.tableBuckets s.candidates

def estimate (s : Site R) : Nat :=
  s.compactor.options.estimate s.compactor.thresholds s.candidates

/-- The read rate of a table at this instant. The shelf is left alone: to keep what the meter folds in
changes no rate of the same instant, and those of later ones by rounding at most
(`exists_elsewhere_passKeeping`, `Shelf.hotness_of_caughtUp`). -/
def hotness (s : Site R) (t : Table) : R :=
  s.shelf.hotness s.clock.instant t

/-- The job that the tables not in flight call for. -/
def selection (s : Site R) : Option (Selection R) :=
  s.compactor.options.select s.compactor.thresholds s.hotness s.candidates

def tableCount (s : Site R) : Nat :=
  s.compactor.tables.live.length

def inFlightCount (s : Site R) : Nat :=
  s.compactor.tables.hidden.length

def strategyState (s : Site R) : StrategyState :=
  { id := Options.strategyId
    name := Options.strategyName
    tables := s.compactor.tables.byId.map (·.descriptor)
    buckets := s.buckets.map fun b => b.items.map (·.id)
    settings := s.compactor.options.sortedSettings }

def onMeter (s : Site R) (t : Table) (f : Meter R → Meter R) : Site R :=
  { s with shelf := s.shelf.updateMeter t f }

def drawId (s : Site R) : Nat × Site R :=
  let (id, ids) := s.ids.draw
  (id, { s with ids })

/-- Puts a table that nobody has read on the shelf. -/
def makeTable (s : Site R) (id size : Nat) : Table × Site R :=
  let (t, shelf) := s.shelf.add id size (.fresh s.clock.instant)
  (t, { s with shelf })

/-- The one table that a merge of a job gives. -/
def mergeOutput (s : Site R) (job : Job R) : Table × Site R :=
  let (id, s) := s.drawId
  s.makeTable id job.inputSize

end Site

end TieredCompaction
