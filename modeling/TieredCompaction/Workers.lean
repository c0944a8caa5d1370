import TieredCompaction.Compactor.Operations
/-!
Workers that merge the jobs of a compactor. Jobs are received in the order in which they were
handed over, each by one worker, which merges it and resolves it before it receives another. The
queue is closed once the compactor is gone; then the workers leave as soon as no job is left to
receive.
-/
namespace TieredCompaction

inductive Worker (R : Type) where
  | idle
  | holding (job : Job R)
  /-- Has merged a job, or failed to, and will resolve it. -/
  | ended (job : Job R) (result : Except Failure (List Table))
  /-- Broken down over a job, for good. -/
  | lost
  | gone

inductive MergeResult where
  | merged (outputs : List Table)
  | failed (cause : Failure)
  | broken

structure Workers (R : Type) where
  site : Site R
  /-- How many of the jobs handed over have been received. -/
  received : Nat
  workers : List (Worker R)
  /-- Whether the compactor is still there. -/
  held : Bool
  closed : Bool

namespace Workers

variable {R : Type} [Quantity R]

/-- At least one worker, all of them idle. Jobs handed over before are none of theirs. -/
def start (site : Site R) (count : Nat) : Workers R :=
  { site
    received := site.compactor.submitted.length
    workers := List.replicate (max count 1) .idle
    held := true
    closed := false }

/-- The jobs that nobody has received, oldest first. -/
def queue (w : Workers R) : List (Job R) :=
  w.site.compactor.submitted.drop w.received

def setWorker (w : Workers R) (index : Nat) (worker : Worker R) : Workers R :=
  { w with workers := w.workers.set index worker }

/-- An idle worker receives the oldest job of the queue. -/
def receive? (w : Workers R) (index : Nat) : Option (Workers R) :=
  match w.workers[index]?, w.queue with
  | some .idle, job :: _ =>
    some { w.setWorker index (.holding job) with received := w.received + 1 }
  | _, _ => none

/-- A worker merges its job. If it breaks down, the job is dropped. -/
def merge? (w : Workers R) (index : Nat) (merge : Job R → Site R → MergeResult × Site R) :
    Option (Workers R) :=
  match w.workers[index]? with
  | some (.holding job) =>
    match merge job w.site with
    | (.merged outputs, site) => some { w.setWorker index (.ended job (.ok outputs)) with site }
    | (.failed cause, site) => some { w.setWorker index (.ended job (.error cause)) with site }
    | (.broken, site) =>
      some { w.setWorker index .lost with
        site := if w.held then site.dropJob job else site.withdraw job.id }
  | _ => none

/-- A worker resolves the job that it has merged, or failed to merge. -/
def resolve? (w : Workers R) (index : Nat) : Option (Workers R) :=
  match w.workers[index]? with
  | some (.ended job (.ok outputs)) =>
    some { w.setWorker index .idle with
      site := if w.held then w.site.completeJob job outputs else w.site.completeLate job }
  | some (.ended job (.error cause)) =>
    some { w.setWorker index .idle with
      site := if w.held then w.site.failJob job cause else w.site.failLate job }
  | _ => none

/-- A worker merges its job and resolves it. -/
def finish? (w : Workers R) (index : Nat) (merge : Job R → Site R → MergeResult × Site R) :
    Option (Workers R) :=
  (w.merge? index merge).map fun w => (w.resolve? index).getD w

/-- An idle worker leaves, once nothing can come any more. -/
def leave? (w : Workers R) (index : Nat) : Option (Workers R) :=
  match w.workers[index]?, w.queue, w.closed with
  | some .idle, [], true => some (w.setWorker index .gone)
  | _, _, _ => none

/-- The next thing that some worker can do for a job, the first worker first. -/
def advance? (w : Workers R) (merge : Job R → Site R → MergeResult × Site R) :
    Option (Workers R) :=
  (List.range w.workers.length).findSome? fun index =>
    (w.finish? index merge).or (w.receive? index)

/-- At most `limit` things done for jobs, until nothing is left to do. -/
def settleUpTo (merge : Job R → Site R → MergeResult × Site R) : Nat → Workers R → Workers R
  | 0, w => w
  | limit + 1, w =>
    match w.advance? merge with
    | some w => settleUpTo merge limit w
    | none => w

def sendHome (w : Workers R) : Workers R :=
  (List.range w.workers.length).foldl (fun w index => (w.leave? index).getD w) w

/-- The compactor goes away. -/
def release (w : Workers R) : Workers R :=
  { w with held := false, site := w.site.note (.closed w.site.compactor.store) }

/-- Nothing will be handed over any more. -/
def shut (w : Workers R) : Workers R :=
  { w with closed := true }

/-- Lets the compactor go away, closes the queue and waits for the workers; those that broke down
are reported. -/
def close (w : Workers R) : Workers R :=
  let w := w.release.shut.sendHome
  let lost := w.workers.filter fun worker => worker matches .lost
  { w with site := w.site.noteAll (lost.map fun _ => .workerLost) }

end Workers

end TieredCompaction
