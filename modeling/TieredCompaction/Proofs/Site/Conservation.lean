import TieredCompaction.Proofs.Site.History
import TieredCompaction.Proofs.Site.InFlight
/-!
No table and no byte gets lost or comes twice. The live tables and the inputs of all merges are the
tables taken in and the outputs of all merges, as long as merges are reported through jobs and their
outputs have IDs that are free.
-/
namespace TieredCompaction

def inputsOf (merged : List Merge) : List Table :=
  merged.flatMap (·.inputs)

def keptOf (merged : List Merge) : List Table :=
  merged.flatMap (·.kept)

theorem inputsOf_concat (merged : List Merge) (m : Merge) :
    inputsOf (merged ++ [m]) = inputsOf merged ++ m.inputs := by
  simp [inputsOf]

theorem keptOf_concat (merged : List Merge) (m : Merge) :
    keptOf (merged ++ [m]) = keptOf merged ++ m.kept := by
  simp [keptOf]

instance (m : Merge) : Decidable m.Fresh :=
  decidable_of_iff
    ((m.kept.map (·.id)).Nodup ∧ ∀ t ∈ m.kept, t.id ∉ (m.tables.removeAll m.inputs).1.liveIds)
    ⟨fun ⟨distinct, unused⟩ => ⟨distinct, unused⟩, fun fresh => ⟨fresh.distinct, fresh.unused⟩⟩

theorem Merge.full_kept (m : Merge) : ∀ t ∈ m.kept, t.size ≠ 0 := by
  intro t member
  have positive := (List.mem_filter.1 member).2
  simp only [decide_eq_true_eq] at positive
  exact Nat.ne_of_gt positive

/-- Fresh outputs are all taken in. -/
theorem Merge.Fresh.added {m : Merge} (fresh : m.Fresh) :
    TableSet.added ((m.tables.removeAll m.inputs).1.receive m.kept).2 = m.kept :=
  TableSet.added_receive_eq_self m.full_kept fresh.distinct fresh.unused

namespace Site

variable {R : Type} [Quantity R]
  {own : Prop} {least : Nat} {s t : Site R} {taken : List Table} {merged : List Merge}

open Relation (ReflTransGen)

omit [Quantity R] in
theorem booked_opened (s : Site R) (o : Opening R) : (s.opened o).Booked where
  held := rfl
  distinct := List.nodup_nil
  live _ waits := absurd waits List.not_mem_nil

theorem Booked.acts (booked : s.Booked) (orderly : s.Orderly)
    (acts : ReflTransGen (Act False) s t) : t.Booked :=
  invariant (fun orderly booked act => booked.act orderly act) acts orderly booked

omit [Quantity R] in
theorem Booked.distinct_tables (booked : s.Booked) {job : Job R}
    (waits : job ∈ s.compactor.waiting) : (job.tables.map (·.id)).Nodup :=
  (List.nodup_flatMap.1 (booked.held ▸ booked.distinct)).1 job waits

omit [Quantity R] in
/-- The tables of a job leave with its merge, each once. -/
theorem perm_settleJob (orderly : s.Orderly) (booked : s.Booked) {job : Job R}
    (waits : job ∈ s.compactor.waiting) (outputs : List Table) :
    ((s.settleJob job outputs).compactor.tables.live ++ job.tables).Perm
      (s.compactor.tables.live ++ TableSet.added
        ((s.compactor.tables.removeAll job.tables).1.receive (keptOutputs outputs)).2) := by
  have left := TableSet.perm_removeAll orderly.tables (booked.distinct_tables waits)
    (booked.live job waits)
  rw [settleJob_compactor, TableSet.receive_live, List.append_assoc]
  exact (List.perm_append_comm.append_left _).trans
    (by rw [← List.append_assoc]; exact left.append_right _)

/-- No table comes from nowhere, and none is lost if all outputs are fresh. -/
theorem Course.counts (course : Course own least s taken merged t) (orderly : s.Orderly)
    (booked : s.Booked) (x : Table) :
    t.compactor.tables.live.count x + (inputsOf merged).count x ≤
        s.compactor.tables.live.count x + taken.count x + (keptOf merged).count x ∧
      ((∀ m ∈ merged, m.Fresh) → t.compactor.tables.live.count x + (inputsOf merged).count x =
        s.compactor.tables.live.count x + taken.count x + (keptOf merged).count x) := by
  induction course with
  | start => simp [inputsOf, keptOf]
  | @takeIn taken merged t before tables ih =>
    obtain ⟨within, whole⟩ := ih
    have live : (t.takeIn tables).1.compactor.tables.live =
        t.compactor.tables.live ++ t.admits tables := by
      rw [takeIn_compactor]
      exact TableSet.receive_live _ _
    rw [live, List.count_append, List.count_append]
    refine ⟨by omega, fun fresh => ?_⟩
    have whole := whole fresh
    omega
  | @settle taken merged t job before waits outputs ih =>
    obtain ⟨within, whole⟩ := ih
    have settled := (perm_settleJob (orderly.acts before.acts) (booked.acts orderly before.acts)
      waits outputs).count_eq x
    have fewer := (TableSet.added_sublist (t.compactor.tables.removeAll job.tables).1
      (keptOutputs outputs)).count_le x
    rw [List.count_append, List.count_append] at settled
    rw [inputsOf_concat, keptOf_concat, List.count_append, List.count_append]
    change _ ≤ _ + ((keptOf merged).count x + (keptOutputs outputs).count x) ∧ _
    refine ⟨by simp only; omega, fun fresh => ?_⟩
    have whole := whole fun m member => fresh m (List.mem_append_left _ member)
    have all := (fresh _ (List.mem_append_right _ (List.mem_singleton_self _))).added
    simp only [Merge.kept] at all ⊢
    rw [all] at settled
    omega
  | quiet before quiet ih =>
    rw [quiet.live]
    exact ih

theorem Course.subperm (course : Course own least s taken merged t) (orderly : s.Orderly)
    (booked : s.Booked) : (t.compactor.tables.live ++ inputsOf merged).Subperm
      (s.compactor.tables.live ++ taken ++ keptOf merged) := by
  rw [List.subperm_ext_iff]
  intro x _
  have counts := (course.counts orderly booked x).1
  simp only [List.count_append]
  omega

theorem Course.perm (course : Course own least s taken merged t) (orderly : s.Orderly)
    (booked : s.Booked) (fresh : ∀ m ∈ merged, m.Fresh) :
    (t.compactor.tables.live ++ inputsOf merged).Perm
      (s.compactor.tables.live ++ taken ++ keptOf merged) := by
  rw [List.perm_iff_count]
  intro x
  have counts := (course.counts orderly booked x).2 fresh
  simp only [List.count_append]
  omega

/-- What the counters tell of a course that starts with none of them moved. -/
structure Counted (c : Counters) (taken : List Table) (merged : List Merge) : Prop where
  flushed : c.tablesFlushed = taken.length
  completed : c.completed = merged.length
  bytesIn : c.bytesIn = sumBy Table.size (inputsOf merged) % UInt64.size
  bytesOut : c.bytesOut = sumBy Table.size (keptOf merged) % UInt64.size

omit [Quantity R] in
theorem tablesFlushed_takeIn (s : Site R) (tables : List Table) :
    (s.takeIn tables).1.counters.tablesFlushed =
      s.counters.tablesFlushed + (s.admits tables).length := by
  rw [takeIn_counters]
  change (if (s.admits tables).isEmpty then _ else _ : Counters).tablesFlushed = _
  split
  · next none => simp [List.isEmpty_iff.1 none]
  · rfl

theorem Course.numbers (course : Course True least s taken merged t) :
    t.counters.tablesFlushed = s.counters.tablesFlushed + taken.length ∧
      t.counters.completed = s.counters.completed + merged.length := by
  induction course with
  | start => exact ⟨rfl, rfl⟩
  | takeIn before tables ih =>
    rw [tablesFlushed_takeIn, ih.1, List.length_append, Nat.add_assoc, takeIn_counters]
    refine ⟨rfl, ?_⟩
    split
    · exact ih.2
    · exact ih.2
  | settle before waits outputs ih =>
    rw [settleJob_counters, List.length_append, ← Nat.add_assoc, ← ih.2]
    exact ⟨ih.1, rfl⟩
  | quiet before quiet ih =>
    have same := quiet.counters trivial
    exact ⟨(congrArg Counters.tablesFlushed same).trans ih.1,
      (congrArg Counters.completed same).trans ih.2⟩

/-- The counters tell the bytes of the merges on a course, beside those counted before. -/
theorem Course.bytes (course : Course True least s taken merged t)
    (read : s.counters.bytesIn < UInt64.size) (written : s.counters.bytesOut < UInt64.size) :
    t.counters.bytesIn = (s.counters.bytesIn + sumBy Table.size (inputsOf merged)) % UInt64.size ∧
    t.counters.bytesOut = (s.counters.bytesOut + sumBy Table.size (keptOf merged)) % UInt64.size := by
  induction course with
  | start => exact ⟨(Nat.mod_eq_of_lt read).symm, (Nat.mod_eq_of_lt written).symm⟩
  | takeIn before tables ih =>
    rw [takeIn_counters]
    split
    · exact ih
    · exact ih
  | settle before waits outputs ih =>
    rw [settleJob_counters, inputsOf_concat, keptOf_concat, sumBy_append, sumBy_append, Counters.merged,
      ih.1, ih.2, Nat.mod_add_mod, Nat.mod_add_mod, Nat.add_assoc, Nat.add_assoc]
    exact ⟨rfl, rfl⟩
  | quiet before quiet ih =>
    have same := quiet.counters trivial
    exact ⟨(congrArg Counters.bytesIn same).trans ih.1, (congrArg Counters.bytesOut same).trans ih.2⟩

theorem Course.counted (course : Course True least s taken merged t) (unused : s.counters = {}) :
    Counted t.counters taken merged := by
  have zero : s.counters.bytesIn = 0 ∧ s.counters.bytesOut = 0 := by simp [unused]
  obtain ⟨flushed, completed⟩ := course.numbers
  obtain ⟨bytesIn, bytesOut⟩ := course.bytes (zero.1 ▸ by decide) (zero.2 ▸ by decide)
  rw [unused, Nat.zero_add] at flushed completed bytesIn bytesOut
  exact ⟨flushed, completed, bytesIn, bytesOut⟩

/-- Whatever is called in whatever order, as long as merges are reported through jobs and their
outputs are fresh: the live tables and the inputs of the merges are the tables taken in and the
outputs of the merges, and so are the numbers and the bytes that the counters tell. -/
theorem run_conserved (s : Site R) (o : Opening R) (calls : List (Call R))
    (unused : s.counters = {}) (viaJobs : ∀ call ∈ calls, call.direct = false)
    (own : ∀ call ∈ calls, call.counts = false)
    (fresh : ∀ m ∈ (s.opened o).merges calls, m.Fresh)
    (readable : sumBy Table.size (inputsOf ((s.opened o).merges calls)) < UInt64.size)
    (writable : sumBy Table.size (keptOf ((s.opened o).merges calls)) < UInt64.size) :
    let t := (s.opened o).run calls
    let taken := (s.opened o).admitted calls
    let merged := (s.opened o).merges calls
    sumBy Table.size t.compactor.tables.live + t.counters.bytesIn =
        sumBy Table.size taken + t.counters.bytesOut ∧
      t.tableCount + (inputsOf merged).length = t.counters.tablesFlushed + (keptOf merged).length ∧
      t.counters.completed = merged.length ∧
      (t.compactor.tables.live ++ inputsOf merged).Perm (taken ++ keptOf merged) := by
  intro t taken merged
  have orderly := s.orderly_opened o
  have booked := s.booked_opened o
  have course : Course True 0 (s.opened o) taken merged t :=
    course_run orderly viaJobs (fun _ => own) fun _ _ => Nat.zero_le _
  obtain ⟨flushed, completed, bytesIn, bytesOut⟩ := course.counted unused
  have whole : (t.compactor.tables.live ++ inputsOf merged).Perm (taken ++ keptOf merged) :=
    course.perm orderly booked fresh
  have bytes := sumBy_perm Table.size whole
  have number := whole.length_eq
  rw [sumBy_append, sumBy_append] at bytes
  rw [List.length_append, List.length_append] at number
  refine ⟨?_, ?_, completed, whole⟩
  · rw [bytesIn, bytesOut, Nat.mod_eq_of_lt readable, Nat.mod_eq_of_lt writable]
    exact bytes
  · rw [flushed]
    exact number

/-- A job fails, flushes bring a repeated and an empty table, and merges give none and two tables,
one of them under the ID of an input. The last one is followed by a merge at once. -/
theorem mixed_run_conserved :
    let empty : Table := { id := 9, size := 0, place := 0 }
    let calls : List (Call Float) :=
      [.setThresholds ⟨2, 2, by decide, by decide⟩, .flush (empty :: Table.samples [1, 2, 2]),
        .enable, .flush (Table.samples [2, 3, 4]), .failJob 1 .cancelled,
        .completeJob 0 (empty :: Table.samples [2, 10]), .completeJob 2 [], .setIntake .merge,
        .completeJob 3 (Table.samples [11, 12])]
    let t := (sample.opened (.sample .keep)).run calls
    let taken := (sample.opened (.sample .keep)).admitted calls
    t.compactor.tables.liveIds = [100] ∧ taken.map (·.id) = [1, 2, 3, 4] ∧
      t.counters.bytesIn = 80 ∧ t.counters.bytesOut = 60 ∧
      sumBy Table.size t.compactor.tables.live + t.counters.bytesIn =
        sumBy Table.size taken + t.counters.bytesOut :=
  ⟨by decide +kernel, by decide +kernel, by decide +kernel, by decide +kernel,
    (run_conserved sample (.sample .keep) _ rfl (by decide) (by decide) (by decide +kernel)
      (by decide +kernel) (by decide +kernel)).1⟩

end Site

end TieredCompaction
