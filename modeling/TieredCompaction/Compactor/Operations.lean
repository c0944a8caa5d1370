import TieredCompaction.Compactor.Evaluation
/-!
What can be asked of a compactor. Every change of its tables is followed by an evaluation, as long
as compaction is enabled.
-/
namespace TieredCompaction.Site

variable {R : Type} [Quantity R]

/-- Enables compaction and reports the tables of the store. -/
def switchOn (s : Site R) : Site R :=
  let s := { s with compactor.enabled := true }
  let s := s.note (.enabled s.compactor.store)
  s.record (.enable [s.strategyState])

def enable (s : Site R) : Site R × Bool :=
  if s.compactor.enabled then (s, false) else (s.switchOn.pass.1, true)

/-- Disables compaction, unless it is. Jobs go on. -/
def disable (s : Site R) : Site R × Bool :=
  if s.compactor.enabled then
    let s := { s with compactor.enabled := false }
    let s := s.note (.disabled s.compactor.store)
    (s.record (.disable [Options.strategyId]), true)
  else (s, false)

/-- Changes the thresholds of evaluations to come. -/
def setThresholds (s : Site R) (t : Thresholds) : Site R :=
  { s with compactor.thresholds := t }.note (.thresholds s.compactor.store t.least t.greatest)

/-- The notice about a flushed table that was not taken in, if there is one. -/
def flushNotice : Table × TableSet.Reception → Option (Notice R)
  | (_, .added) => none
  | (t, .empty) => some (.emptyFlush t)
  | (t, .alreadyLive) => some (.liveFlush t)

/-- Takes in flushed tables and reports the new ones, and tells whether there is one. -/
def takeIn (s : Site R) (tables : List Table) : Site R × Bool :=
  let (set, outcomes) := s.compactor.tables.receive tables
  let added := TableSet.added outcomes
  let s := (s.setTables set).noteAll (outcomes.filterMap flushNotice)
  if added.isEmpty then (s, false)
  else
    let s := { s with counters := s.counters.flushed added.length }
    let s := s.note (.flushed s.compactor.store added.length)
    (if s.compactor.enabled then s.record (.flush (added.map .ofTable)) else s, true)

/-- Takes in flushed tables. If none is new, nothing happens. -/
def flush (s : Site R) (tables : List Table) : Site R :=
  match s.takeIn tables with
  | (s, true) => s.pass.1
  | (s, false) => s

def complete (s : Site R) (start : Moment) (inputs : List Table) (stop : Moment)
    (outputs : List Table) : Site R :=
  (s.replace start inputs stop outputs).pass.1

def job? (s : Site R) (id : Nat) : Option (Job R) :=
  s.compactor.waiting.find? (·.id == id)

def withdraw (s : Site R) (id : Nat) : Site R :=
  { s with compactor.waiting := s.compactor.waiting.filter (·.id != id) }

def completeJob (s : Site R) (job : Job R) (outputs : List Table) : Site R :=
  (s.withdraw job.id).complete job.startedAt job.tables s.clock.moment outputs

def failJob (s : Site R) (job : Job R) (cause : Failure) : Site R :=
  (s.withdraw job.id).giveBack job.tables cause

def dropJob (s : Site R) (job : Job R) : Site R :=
  (s.withdraw job.id).abandon job

def mergeJob (s : Site R) (job : Job R) : Site R :=
  let (output, s) := s.mergeOutput job
  s.completeJob job [output]

def completeLate (s : Site R) (job : Job R) : Site R :=
  (s.withdraw job.id).note (.completedLate job.id)

def failLate (s : Site R) (job : Job R) : Site R :=
  (s.withdraw job.id).note (.failedLate job.id)

/-- Merges a job into one table when its compactor is gone. The table goes nowhere. -/
def mergeLate (s : Site R) (job : Job R) : Site R :=
  (s.mergeOutput job).2.completeLate job

/-- Merges the oldest waiting job, at most `limit` times, and counts the merges. -/
def drainUpTo (merge : Site R → Job R → Site R) : Nat → Site R → Site R × Nat
  | 0, s => (s, 0)
  | limit + 1, s =>
    match s.compactor.waiting with
    | [] => (s, 0)
    | job :: _ =>
      let (s, merges) := drainUpTo merge limit (merge s job)
      (s, merges + 1)

/-- Merges the oldest waiting job until none waits. A merge that starts another job takes at least
two live tables and leaves one; jobs whose tables are gone add one each. -/
def drainBy (merge : Site R → Job R → Site R) (s : Site R) : Site R × Nat :=
  drainUpTo merge (s.tableCount + 2 * s.compactor.waiting.length) s

def drain (s : Site R) : Site R × Nat :=
  s.drainBy mergeJob

end TieredCompaction.Site
