import TieredCompaction.Compactor.Operations
import TieredCompaction.Proofs.Selection
import TieredCompaction.Proofs.TableSet
/-!
What one evaluation does. It either passes over the store or hands one job over, and a hand-over is
the last thing that it does: a queue that resolves the job at once might as well keep it and resolve
it right after.
-/
namespace TieredCompaction.Site

variable {R : Type}

@[simp] theorem note_compactor (s : Site R) (n : Notice R) : (s.note n).compactor = s.compactor := rfl

@[simp] theorem note_counters (s : Site R) (n : Notice R) : (s.note n).counters = s.counters := rfl

@[simp] theorem noteAll_compactor (s : Site R) (ns : List (Notice R)) :
    (s.noteAll ns).compactor = s.compactor := rfl

@[simp] theorem noteAll_counters (s : Site R) (ns : List (Notice R)) :
    (s.noteAll ns).counters = s.counters := rfl

@[simp] theorem record_compactor (s : Site R) (report : Report) :
    (s.record report).compactor = { s.compactor with
      events := s.compactor.events ++ [{ store := s.compactor.store, report }] } := rfl

@[simp] theorem setTables_compactor (s : Site R) (tables : TableSet) :
    (s.setTables tables).compactor = { s.compactor with tables } := rfl

@[simp] theorem setTables_counters (s : Site R) (tables : TableSet) :
    (s.setTables tables).counters = s.counters := rfl

@[simp] theorem retireAll_compactor (s : Site R) (tables : List Table) :
    (s.retireAll tables).compactor = s.compactor := rfl

@[simp] theorem retireAll_counters (s : Site R) (tables : List Table) :
    (s.retireAll tables).counters = s.counters := rfl

variable [Quantity R]

/-- The events in which an evaluation tells of the merges due. -/
def dueReports (s : Site R) : List Event :=
  if 0 < s.estimate ∨ 0 < s.compactor.lastPending then
    [{ store := s.compactor.store, report := .pending Options.strategyId s.estimate }]
  else []

theorem reportPending_eq (s : Site R) :
    s.reportPending = { s with
      counters.pending := s.estimate
      compactor.lastPending := s.estimate
      compactor.events := s.compactor.events ++ s.dueReports } := by
  by_cases due : 0 < s.estimate ∨ 0 < s.compactor.lastPending
  · simp only [reportPending, dueReports, if_pos due]
    rfl
  · simp only [reportPending, dueReports, if_neg due, List.append_nil]

/-- The site with the tables of a selection in flight. -/
def take (s : Site R) (chosen : Selection R) : Site R :=
  { s with
    compactor.tables.hidden := s.compactor.tables.hidden ++ chosen.tables.map (·.id)
    counters.submitted := s.counters.submitted + 1 }

def jobOf (s : Site R) (chosen : Selection R) : Job R :=
  { id := s.compactor.nextJob
    tables := chosen.tables
    hotness := chosen.hotness
    startedAt := s.clock.moment }

/-- The site after an evaluation that finds nothing to merge. -/
def passOver (s : Site R) : Site R :=
  s.look.reportPending.note .idle

/-- The site after an evaluation whose job waits in the queue. -/
def handOver (s : Site R) (chosen : Selection R) : Site R :=
  (((s.look.take chosen).reportPending.startJob chosen).2).park (s.jobOf chosen)

theorem passOver_compactor (s : Site R) :
    s.passOver.compactor = { s.compactor with
      lastPending := s.estimate
      events := s.compactor.events ++ s.dueReports } := by
  simp only [passOver, reportPending_eq, note_compactor]
  rfl

theorem passOver_counters (s : Site R) :
    s.passOver.counters = { s.counters with pending := s.estimate } := by
  simp only [passOver, reportPending_eq, note_counters]
  rfl

theorem estimate_passOver (s : Site R) : s.passOver.estimate = s.estimate := by
  simp only [estimate, candidates, passOver_compactor]

theorem handOver_compactor (s : Site R) (chosen : Selection R) :
    (s.handOver chosen).compactor = { (s.take chosen).compactor with
      lastPending := (s.take chosen).estimate
      events := s.compactor.events ++ (s.take chosen).dueReports
      nextJob := s.compactor.nextJob + 1
      submitted := s.compactor.submitted ++ [s.jobOf chosen]
      waiting := s.compactor.waiting ++ [s.jobOf chosen] } := by
  simp only [handOver, reportPending_eq]
  rfl

theorem estimate_handOver (s : Site R) (chosen : Selection R) :
    (s.handOver chosen).estimate = (s.take chosen).estimate := by
  simp only [estimate, candidates, handOver_compactor]

theorem handOver_counters (s : Site R) (chosen : Selection R) :
    (s.handOver chosen).counters = { s.counters with
      submitted := s.counters.submitted + 1
      pending := (s.take chosen).estimate } := by
  simp only [handOver, reportPending_eq]
  rfl

omit [Quantity R] in
theorem candidates_subset {s : Site R} {t : Table} (member : t ∈ s.candidates) :
    t ∈ s.compactor.tables.live ∧ t.id ∉ s.compactor.tables.hidden :=
  have facts := TableSet.mem_candidates.1 member
  ⟨facts.1, facts.2.2⟩

/-- The tables of a selection are live, not in flight and distinct. -/
theorem selection_free {s : Site R} {chosen : Selection R} (some : s.selection = some chosen) :
    ∀ t ∈ chosen.tables, t ∈ s.compactor.tables.live ∧ t.id ∉ s.compactor.tables.hidden :=
  fun _ member => candidates_subset ((Options.select_subperm some).subset member)

theorem selection_distinct {s : Site R} (distinct : s.compactor.tables.liveIds.Nodup)
    {chosen : Selection R} (some : s.selection = some chosen) :
    (chosen.tables.map (·.id)).Nodup := by
  obtain ⟨part, same, sub⟩ := Options.select_subperm some
  exact ((same.map _).nodup_iff).1
    ((TableSet.nodup_candidates distinct).sublist (sub.map _))

theorem least_le_length_selection {s : Site R} {chosen : Selection R}
    (some : s.selection = some chosen) :
    s.compactor.thresholds.least ≤ chosen.tables.length :=
  Options.least_le_length_select some

theorem two_le_length_selection {s : Site R} {chosen : Selection R}
    (some : s.selection = some chosen) : 2 ≤ chosen.tables.length :=
  Nat.le_trans s.compactor.thresholds.two_le_least (least_le_length_selection some)

theorem selection_eq_none_iff {s : Site R} : s.selection = none ↔ s.estimate = 0 :=
  Options.select_eq_none_iff_estimate

theorem evaluate_of_none {s : Site R} (none : s.selection = none) :
    s.evaluate = (s.passOver, Option.none) := by
  have taken : s.look.takeUp s.look.selection = (s.look, Option.none) := by
    rw [show s.look.selection = Option.none from none]
    rfl
  rw [evaluate, taken]
  rfl

/-- No selection holds a table in flight, so each one becomes a job. -/
theorem evaluate_of_some {s : Site R} (distinct : s.compactor.tables.liveIds.Nodup)
    {chosen : Selection R} (some : s.selection = some chosen) :
    s.evaluate =
      (((s.look.take chosen).reportPending.startJob chosen).2, Option.some (s.jobOf chosen)) := by
  have free : ∀ t ∈ chosen.tables, t.id ∉ s.compactor.tables.hidden :=
    fun t member => (selection_free some t member).2
  have taken : s.look.takeUp s.look.selection = (s.look.take chosen, Option.some chosen) := by
    rw [show s.look.selection = Option.some chosen from some]
    simp only [takeUp, look, noteAll_compactor,
      TableSet.hide?_eq_some (selection_distinct distinct some) free]
    rfl
  rw [evaluate, taken]
  simp only [reportPending_eq]
  rfl

end TieredCompaction.Site
