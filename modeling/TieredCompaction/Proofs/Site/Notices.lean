import TieredCompaction.Proofs.Site.Effects
/-!
What each operation tells, up to the evaluation that follows it.
-/
namespace TieredCompaction.Site

variable {R : Type}

def flushNotices (s : Site R) (tables : List Table) : List (Notice R) :=
  let outcomes := (s.compactor.tables.receive tables).2
  outcomes.filterMap flushNotice ++
    if (TableSet.added outcomes).isEmpty then []
    else [.flushed s.compactor.store (TableSet.added outcomes).length]

def mergeNotices (s : Site R) (start : Moment) (inputs : List Table) (stop : Moment)
    (outputs : List Table) : List (Notice R) :=
  let (rest, removed) := s.compactor.tables.removeAll inputs
  (outputs.filter (·.size = 0)).map .emptyOutput ++
    (rest.receive (keptOutputs outputs)).2.filterMap outputNotice ++
    [.merged s.compactor.store removed.length (sumBy Table.size inputs)
      (keptOutputs outputs).length (sumBy Table.size (keptOutputs outputs)) (stop.since start)]

theorem disable_notices {s : Site R} (on : s.compactor.enabled = true) :
    s.disable.1.notices = s.notices ++ [.disabled s.compactor.store] := by
  simp only [disable, on, if_true]
  rfl

theorem takeIn_notices (s : Site R) (tables : List Table) :
    (s.takeIn tables).1.notices = s.notices ++ s.flushNotices tables := by
  cases new : TableSet.added (s.compactor.tables.receive tables).2 with
  | nil => simp [takeIn, flushNotices, new, noteAll, setTables]
  | cons t rest =>
    by_cases on : s.compactor.enabled = true <;>
      simp [takeIn, flushNotices, new, on, note, noteAll, setTables, record]

theorem replace_notices (s : Site R) (start : Moment) (inputs : List Table) (stop : Moment)
    (outputs : List Table) :
    (s.replace start inputs stop outputs).notices =
      s.notices ++ s.mergeNotices start inputs stop outputs := by
  by_cases on : s.compactor.enabled = true <;>
    simp [replace, mergeNotices, keptOutputs, on, note, noteAll, setTables, retireAll, record]

theorem settleJob_notices (s : Site R) (job : Job R) (outputs : List Table) :
    (s.settleJob job outputs).notices =
      s.notices ++ s.mergeNotices job.startedAt job.tables s.clock.moment outputs :=
  replace_notices _ _ _ _ _

theorem giveBack_notices (s : Site R) (inputs : List Table) (cause : Failure) :
    (s.giveBack inputs cause).notices =
      s.notices ++ [.failed s.compactor.store inputs.length cause] := rfl

theorem failJob_notices (s : Site R) (job : Job R) (cause : Failure) :
    (s.failJob job cause).notices =
      s.notices ++ [.failed s.compactor.store job.tables.length cause] := rfl

theorem dropJob_notices (s : Site R) (job : Job R) :
    (s.dropJob job).notices = s.notices ++
      [.unresolved job.id, .failed s.compactor.store job.tables.length .cancelled] := by
  simp [dropJob, abandon, giveBack, note, withdraw, setTables]

variable [Quantity R]

theorem switchOn_notices (s : Site R) :
    s.switchOn.notices = s.notices ++ [.enabled s.compactor.store] := rfl

theorem passOver_notices (s : Site R) :
    s.passOver.notices = s.notices ++
      [.awaitingTables, .consulting, .grouped s.candidates.length s.buckets.length, .idle] := by
  rw [passOver, reportPending_eq]
  simp [note, look, noteAll]

theorem handOver_notices (s : Site R) (chosen : Selection R) :
    (s.handOver chosen).notices = s.notices ++
      [.awaitingTables, .consulting, .grouped s.candidates.length s.buckets.length,
        .submitting (s.jobOf chosen)] := by
  rw [handOver, reportPending_eq]
  simp [startJob, park, take, note, look, noteAll, jobOf]

end TieredCompaction.Site
