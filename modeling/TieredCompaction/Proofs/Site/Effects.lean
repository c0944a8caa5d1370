import TieredCompaction.Proofs.Site.Evaluation
/-!
What each operation does to the compactor, up to the evaluation that follows it, as one equation.
-/
namespace TieredCompaction

/-- An entry of an event is about a table: it has its ID and its size, and the ID of the strategy. -/
structure Entry.Tells (e : Entry) (t : Table) : Prop where
  strategy : e.strategy = Options.strategyId
  id : e.table.generation = t.id
  size : e.table.size = t.size

theorem Entry.ofTable_eq_iff {t : Table} {e : Entry} : ofTable t = e ↔ e.Tells t := by
  constructor
  · rintro rfl
    exact ⟨rfl, rfl, rfl⟩
  · obtain ⟨strategy, generation, size⟩ := e
    rintro ⟨rfl, rfl, rfl⟩
    rfl

/-- Events list tables in their order, one entry for each. -/
theorem Entry.map_ofTable_eq_iff {ts : List Table} {es : List Entry} :
    ts.map ofTable = es ↔ List.Forall₂ (fun t e => e.Tells t) ts es := by
  rw [← List.forall₂_eq_eq_eq, List.forall₂_map_left_iff]
  simp only [ofTable_eq_iff]

namespace Site

variable {R : Type}

/-- The tables of a merge that are taken in if their IDs are free. -/
def keptOutputs (outputs : List Table) : List Table :=
  outputs.filter (0 < ·.size)

/-- Resolves a job with the outputs of its merge, without the evaluation that follows. -/
def settleJob (s : Site R) (job : Job R) (outputs : List Table) : Site R :=
  (s.withdraw job.id).replace job.startedAt job.tables s.clock.moment outputs

/-- The event of a merge, if compaction is enabled. -/
def mergeReports (s : Site R) (start : Moment) (inputs : List Table) (stop : Moment)
    (outputs : List Table) : List Event :=
  if s.compactor.enabled then
    [{ store := s.compactor.store
       report := .compaction start stop (inputs.map .ofTable) (outputs.map .ofTable) }]
  else []

/-- The event of a flush, if compaction is enabled and a table is new. -/
def flushReports (s : Site R) (tables : List Table) : List Event :=
  if s.compactor.enabled && !tables.isEmpty then
    [{ store := s.compactor.store, report := .flush (tables.map .ofTable) }]
  else []

theorem disable_compactor {s : Site R} (on : s.compactor.enabled = true) :
    s.disable.1.compactor = { s.compactor with
      enabled := false
      events := s.compactor.events ++
        [{ store := s.compactor.store, report := .disable [Options.strategyId] }] } := by
  simp only [disable, on, if_true]
  rfl

theorem disable_of_off {s : Site R} (off : s.compactor.enabled = false) :
    s.disable = (s, false) := by
  simp [disable, off]

theorem takeIn_compactor (s : Site R) (tables : List Table) :
    (s.takeIn tables).1.compactor = { s.compactor with
      tables := (s.compactor.tables.receive tables).1
      events := s.compactor.events ++
        s.flushReports (TableSet.added (s.compactor.tables.receive tables).2) } := by
  cases new : TableSet.added (s.compactor.tables.receive tables).2 with
  | nil => simp [takeIn, new, flushReports]
  | cons t rest =>
    by_cases on : s.compactor.enabled = true <;> simp [takeIn, new, flushReports, on]

theorem takeIn_counters (s : Site R) (tables : List Table) :
    (s.takeIn tables).1.counters =
      if (TableSet.added (s.compactor.tables.receive tables).2).isEmpty then s.counters
      else s.counters.flushed (TableSet.added (s.compactor.tables.receive tables).2).length := by
  by_cases none : (TableSet.added (s.compactor.tables.receive tables).2).isEmpty
  · simp [takeIn, none]
  · by_cases on : s.compactor.enabled = true <;> simp [takeIn, none, on, record]

theorem replace_compactor (s : Site R) (start : Moment) (inputs : List Table) (stop : Moment)
    (outputs : List Table) :
    (s.replace start inputs stop outputs).compactor = { s.compactor with
      tables := ((s.compactor.tables.removeAll inputs).1.receive (keptOutputs outputs)).1
      events := s.compactor.events ++
        s.mergeReports start inputs stop (keptOutputs outputs) } := by
  by_cases on : s.compactor.enabled = true <;> simp [replace, mergeReports, keptOutputs, on]

theorem replace_counters (s : Site R) (start : Moment) (inputs : List Table) (stop : Moment)
    (outputs : List Table) :
    (s.replace start inputs stop outputs).counters =
      s.counters.merged (sumBy Table.size inputs) (sumBy Table.size (keptOutputs outputs)) := by
  by_cases on : s.compactor.enabled = true <;> simp [replace, keptOutputs, on, record]

theorem settleJob_counters (s : Site R) (job : Job R) (outputs : List Table) :
    (s.settleJob job outputs).counters =
      s.counters.merged (sumBy Table.size job.tables) (sumBy Table.size (keptOutputs outputs)) :=
  replace_counters _ _ _ _ _

theorem settleJob_compactor (s : Site R) (job : Job R) (outputs : List Table) :
    (s.settleJob job outputs).compactor = { s.compactor with
      tables := ((s.compactor.tables.removeAll job.tables).1.receive (keptOutputs outputs)).1
      waiting := s.compactor.waiting.filter (·.id != job.id)
      events := s.compactor.events ++
        s.mergeReports job.startedAt job.tables s.clock.moment (keptOutputs outputs) } := by
  rw [settleJob, replace_compactor]
  rfl

theorem dropJob_compactor (s : Site R) (job : Job R) :
    (s.dropJob job).compactor = { s.compactor with
      tables := s.compactor.tables.unhide job.tables
      waiting := s.compactor.waiting.filter (·.id != job.id) } := rfl

theorem dropJob_counters (s : Site R) (job : Job R) :
    (s.dropJob job).counters = { s.counters with failed := s.counters.failed + 1 } := rfl

theorem candidates_take (s : Site R) (chosen : Selection R) :
    (s.take chosen).candidates =
      s.candidates.filter fun t => !(chosen.tables.map (·.id)).contains t.id :=
  s.compactor.tables.candidates_hide _

variable [Quantity R]

theorem candidates_handOver (s : Site R) (chosen : Selection R) :
    (s.handOver chosen).candidates = (s.take chosen).candidates := by
  rw [candidates, handOver_compactor]
  rfl

/-- Merges a job into one table, without the evaluation that follows. -/
def settleMerged (s : Site R) (job : Job R) : Site R :=
  (s.mergeOutput job).2.settleJob job [(s.mergeOutput job).1]

theorem settleMerged_compactor (s : Site R) (job : Job R) :
    (s.settleMerged job).compactor = { s.compactor with
      tables := ((s.compactor.tables.removeAll job.tables).1.receive
        (keptOutputs [(s.mergeOutput job).1])).1
      waiting := s.compactor.waiting.filter (·.id != job.id)
      events := s.compactor.events ++ s.mergeReports job.startedAt job.tables s.clock.moment
        (keptOutputs [(s.mergeOutput job).1]) } := by
  rw [settleMerged, settleJob_compactor]
  rfl

theorem settleMerged_counters (s : Site R) (job : Job R) :
    (s.settleMerged job).counters = s.counters.merged (sumBy Table.size job.tables)
      (sumBy Table.size (keptOutputs [(s.mergeOutput job).1])) :=
  settleJob_counters _ _ _

/-- The live tables of a merged job make way for one table at most. -/
theorem tableCount_settleMerged_add_le {s : Site R} {job : Job R}
    (distinct : (job.tables.map (·.id)).Nodup)
    (live : ∀ t ∈ job.tables, t ∈ s.compactor.tables.live) :
    (s.settleMerged job).tableCount + job.tables.length ≤ s.tableCount + 1 := by
  have removed := TableSet.length_removeAll_add_le distinct live
  have received := TableSet.length_receive_le (s.compactor.tables.removeAll job.tables).1
    (keptOutputs [(s.mergeOutput job).1])
  have one : (keptOutputs [(s.mergeOutput job).1]).length ≤ 1 := List.length_filter_le _ _
  rw [tableCount, settleMerged_compactor, tableCount]
  dsimp only
  omega

theorem live_handOver (s : Site R) (chosen : Selection R) :
    (s.handOver chosen).compactor.tables.live = s.compactor.tables.live := by
  rw [handOver_compactor]
  rfl

theorem tableCount_handOver (s : Site R) (chosen : Selection R) :
    (s.handOver chosen).tableCount = s.tableCount :=
  congrArg List.length (s.live_handOver chosen)

/-- A job that is thrown away gives its tables back. -/
theorem tables_dropJob_handOver {s : Site R} {chosen : Selection R}
    (some : s.selection = some chosen) :
    ((s.handOver chosen).dropJob (s.jobOf chosen)).compactor.tables = s.compactor.tables := by
  have after : ((s.handOver chosen).dropJob (s.jobOf chosen)).compactor.tables =
      (s.take chosen).compactor.tables.unhide chosen.tables := by
    rw [dropJob_compactor, handOver_compactor]
    rfl
  have stays := TableSet.filter_of_apart fun t member => (selection_free some t member).2
  have leaves : ((chosen.tables.map (·.id)).filter fun id =>
      !chosen.tables.any (·.id == id)) = [] := by
    refine List.filter_eq_nil_iff.2 fun id taken => ?_
    rw [Bool.not_eq_true', ← Bool.not_eq_true, TableSet.any_id_iff, not_not]
    exact taken
  rw [after, TableSet.unhide, take]
  simp only [List.filter_append, stays, leaves, List.append_nil]

theorem estimate_dropJob_handOver {s : Site R} {chosen : Selection R}
    (some : s.selection = some chosen) :
    ((s.handOver chosen).dropJob (s.jobOf chosen)).estimate = s.estimate := by
  rw [estimate, candidates, tables_dropJob_handOver some, dropJob_compactor, handOver_compactor]
  rfl

theorem switchOn_compactor (s : Site R) :
    s.switchOn.compactor = { s.compactor with
      enabled := true
      events := s.compactor.events ++
        [{ store := s.compactor.store, report := .enable [s.strategyState] }] } := rfl

theorem enable_of_off {s : Site R} (off : s.compactor.enabled = false) :
    s.enable = (s.switchOn.pass.1, true) := by
  simp [enable, off]

theorem enable_of_on {s : Site R} (on : s.compactor.enabled = true) : s.enable = (s, false) := by
  simp [enable, on]

theorem flush_eq (s : Site R) (tables : List Table) :
    s.flush tables =
      if (TableSet.added (s.compactor.tables.receive tables).2).isEmpty then (s.takeIn tables).1
      else (s.takeIn tables).1.pass.1 := by
  by_cases none : (TableSet.added (s.compactor.tables.receive tables).2).isEmpty
  · simp [flush, takeIn, none]
  · simp [flush, takeIn, none]

end Site

end TieredCompaction
