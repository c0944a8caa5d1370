import TieredCompaction.Compactor.Basic
/-!
Evaluation. A pass looks at the tables that are not in flight, puts those of the chosen job in
flight, reports how many merges are still due, and hands the job over. A queue that merges at once
starts the next pass before the hand-over returns; as every merge leaves fewer tables, the chain of
passes ends.
-/
namespace TieredCompaction.Site

variable {R : Type} [Quantity R]

/-- Says that the tables are looked at, and how they are grouped. -/
def look (s : Site R) : Site R :=
  s.noteAll [.awaitingTables, .consulting, .grouped s.candidates.length s.buckets.length]

def takeUp (s : Site R) : Option (Selection R) → Site R × Option (Selection R)
  | none => (s, none)
  | some chosen =>
    match s.compactor.tables.hide? chosen.tables with
    | some tables =>
      ({ s.setTables tables with counters.submitted := s.counters.submitted + 1 }, some chosen)
    | none => (s.note (.inFlight chosen.tables), none)

/-- Reports the merges due, unless none are and none were. -/
def reportPending (s : Site R) : Site R :=
  let pending := s.estimate
  let previous := s.compactor.lastPending
  let s := { s with counters.pending := pending, compactor.lastPending := pending }
  if 0 < pending ∨ 0 < previous then s.record (.pending Options.strategyId pending) else s

def startJob (s : Site R) (chosen : Selection R) : Job R × Site R :=
  let job : Job R :=
    { id := s.compactor.nextJob
      tables := chosen.tables
      hotness := chosen.hotness
      startedAt := s.clock.moment }
  (job,
    { s with
      compactor.nextJob := s.compactor.nextJob + 1
      compactor.submitted := s.compactor.submitted ++ [job] }.note (.submitting job))

/-- One evaluation, up to the job that is handed over. -/
def evaluate (s : Site R) : Site R × Option (Job R) :=
  let s := s.look
  let (s, chosen?) := s.takeUp s.selection
  let s := s.reportPending
  match chosen? with
  | none => (s.note .idle, none)
  | some chosen =>
    let (job, s) := s.startJob chosen
    (s, some job)

def retireAll (s : Site R) (tables : List Table) : Site R :=
  { s with shelf := tables.foldl Shelf.retire s.shelf }

/-- The notice about a merge output that was not taken in, if there is one. -/
def outputNotice : Table × TableSet.Reception → Option (Notice R)
  | (t, .alreadyLive) => some (.liveOutput t)
  | _ => none

/-- Replaces tables by the outputs of their merge, of which empty ones are left out. -/
def replace (s : Site R) (start : Moment) (inputs : List Table) (stop : Moment)
    (outputs : List Table) : Site R :=
  let kept := outputs.filter (0 < ·.size)
  let s := s.noteAll ((outputs.filter (·.size = 0)).map .emptyOutput)
  let (tables, removed) := s.compactor.tables.removeAll inputs
  let (tables, outcomes) := tables.receive kept
  let s := ((s.setTables tables).retireAll removed).noteAll (outcomes.filterMap outputNotice)
  let bytesIn := sumBy Table.size inputs
  let bytesOut := sumBy Table.size kept
  let s := { s with counters := s.counters.merged bytesIn bytesOut }
  let s := s.note
    (.merged s.compactor.store removed.length bytesIn kept.length bytesOut (stop.since start))
  if s.compactor.enabled then
    s.record (.compaction start stop (inputs.map .ofTable) (kept.map .ofTable))
  else s

def giveBack (s : Site R) (inputs : List Table) (cause : Failure) : Site R :=
  let s := s.setTables (s.compactor.tables.unhide inputs)
  let s := { s with counters.failed := s.counters.failed + 1 }
  s.note (.failed s.compactor.store inputs.length cause)

/-- Gives back the tables of a job that nobody resolves. -/
def abandon (s : Site R) (job : Job R) : Site R :=
  (s.note (.unresolved job.id)).giveBack job.tables .cancelled

def park (s : Site R) (job : Job R) : Site R :=
  { s with compactor.waiting := s.compactor.waiting ++ [job] }

/-- Merges a job into one table, as it is handed over. -/
def mergeAtOnce (s : Site R) (job : Job R) : Site R :=
  let (output, s) := s.mergeOutput job
  s.replace job.startedAt job.tables s.clock.moment [output]

/-- A chain of at most `limit` passes, and whether the first one handed over a job. -/
def passUpTo : Nat → Site R → Site R × Bool
  | 0, s => (s, false)
  | limit + 1, s =>
    if s.compactor.enabled then
      match s.evaluate with
      | (s, none) => (s, false)
      | (s, some job) =>
        match s.compactor.intake with
        | .keep => (s.park job, true)
        | .drop => (s.abandon job, true)
        | .merge => ((passUpTo limit (s.mergeAtOnce job)).1, true)
    else (s, false)

/-- Evaluates a store, if compaction is enabled. Each merge leaves at least one table fewer, so
there are no more passes than tables. -/
def pass (s : Site R) : Site R × Bool :=
  passUpTo (s.tableCount + 1) s

end TieredCompaction.Site
