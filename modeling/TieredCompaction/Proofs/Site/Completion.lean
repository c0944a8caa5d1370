import TieredCompaction.Proofs.Site.Conservation
import TieredCompaction.Proofs.Site.Order
import TieredCompaction.Proofs.Site.Retirement
import TieredCompaction.Proofs.Site.Tally
/-!
What a merge and a flush report, beside what becomes of the live tables. A flush reports the tables
that it adds. A merge reports what it has read and written: its inputs as they are passed, live or
not, and its outputs that are not empty, taken in or not. So its report lists the tables that leave
and those that enter if and only if the inputs are live, each once, and the outputs have free IDs of
their own.
-/
namespace TieredCompaction

/-- The live tables that a merge takes out, in the order of its inputs. -/
def Merge.leaving (m : Merge) : List Table :=
  (m.tables.removeAll m.inputs).2

theorem Entry.map_ofTable_inj {ts us : List Table} :
    ts.map Entry.ofTable = us.map Entry.ofTable ↔ ts.map (·.descriptor) = us.map (·.descriptor) := by
  have entries (vs : List Table) : vs.map Entry.ofTable =
      (vs.map (·.descriptor)).map fun d => { strategy := Options.strategyId, table := d } := by
    rw [List.map_map]
    rfl
  rw [entries, entries]
  exact (List.map_injective_iff.2 fun _ _ same => congrArg Entry.table same).eq_iff

namespace Site

variable {R : Type}

/-- A merge changes the live tables of `s` to those of `t` and is told. -/
structure MergeTold (s t : Site R) (start : Moment) (m : Merge) (stop : Moment) : Prop where
  live : ∃ staying, s.compactor.tables.live.Perm (m.leaving ++ staying) ∧
    t.compactor.tables.live = staying ++ m.entering
  /-- The event lists all inputs, and the outputs that are not empty. -/
  events : t.compactor.events = s.compactor.events ++
    [{ store := s.compactor.store
       report := .compaction start stop (m.inputs.map .ofTable) (m.kept.map .ofTable) }]
  /-- The bytes are those of the tables listed. -/
  bytesIn : t.counters.bytesIn = (s.counters.bytesIn + sumBy Table.size m.inputs) % UInt64.size
  bytesOut : t.counters.bytesOut = (s.counters.bytesOut + sumBy Table.size m.kept) % UInt64.size
  /-- A table that leaves is listed by its ID, -/
  leaving : (m.leaving.map (·.id)).Sublist (m.inputs.map (·.id))
  /-- and a table that enters is listed. -/
  entering : m.entering.Sublist m.kept
  /-- The inputs listed are those that leave if and only if they are live, each once. -/
  inputs_iff : m.inputs.map Entry.ofTable = m.leaving.map Entry.ofTable ↔
    (m.inputs.map (·.id)).Nodup ∧
      ∀ x ∈ m.inputs, ∃ y ∈ s.compactor.tables.live, y.descriptor = x.descriptor
  /-- The outputs listed are those that enter if and only if their IDs are distinct and free. -/
  outputs_iff : m.kept.map Entry.ofTable = m.entering.map Entry.ofTable ↔
    (m.kept.map (·.id)).Nodup ∧
      ∀ x ∈ m.kept, x.id ∈ s.compactor.tables.liveIds → x.id ∈ m.inputs.map (·.id)

/-- A flush changes the live tables of `s` to those of `t` and is told, if it adds any. -/
structure FlushTold (s t : Site R) (tables : List Table) : Prop where
  live : t.compactor.tables.live = s.compactor.tables.live ++ s.admits tables
  events : t.compactor.events = s.compactor.events ++
    if (s.admits tables).isEmpty then []
    else [{ store := s.compactor.store, report := .flush ((s.admits tables).map .ofTable) }]
  counted : t.counters.tablesFlushed = s.counters.tablesFlushed + (s.admits tables).length

variable [Quantity R]

/-- The evaluation at `s` leads to `t`. It adds to the events, and to the bytes what it merges
itself, which a queue does that merges jobs at once. -/
structure Followed (s t : Site R) : Prop where
  events : s.compactor.events <+: t.compactor.events
  bytesIn : t.counters.bytesIn =
    (s.counters.bytesIn + sumBy Table.size (inputsOf s.passMerges)) % UInt64.size
  bytesOut : t.counters.bytesOut =
    (s.counters.bytesOut + sumBy Table.size (keptOf s.passMerges)) % UInt64.size
  alone : s.compactor.intake ≠ .merge → s.passMerges = []

variable {s t : Site R}

open Relation (ReflTransGen)

omit [Quantity R] in
theorem merge_told (on : s.compactor.enabled = true)
    (distinct : s.compactor.tables.liveIds.Nodup) (start : Moment) (inputs : List Table)
    (stop : Moment) (outputs : List Table) :
    s.MergeTold (s.replace start inputs stop outputs) start
      ⟨s.compactor.tables, inputs, outputs⟩ stop where
  live := by
    refine ⟨_, s.compactor.tables.perm_removeAll_snd inputs, ?_⟩
    rw [replace_compactor]
    exact TableSet.receive_live _ _
  events := by
    rw [replace_compactor, mergeReports, if_pos on]
    rfl
  bytesIn := by rw [replace_counters]; rfl
  bytesOut := by rw [replace_counters]; rfl
  leaving := TableSet.ids_removeAll_sublist distinct
  entering := Merge.entering_sublist _
  inputs_iff := by
    rw [Entry.map_ofTable_inj, eq_comm]
    exact TableSet.descriptors_removeAll_iff distinct
  outputs_iff := by
    generalize told : (⟨s.compactor.tables, inputs, outputs⟩ : Merge) = m
    have all : m.kept.map Entry.ofTable = m.entering.map Entry.ofTable ↔ m.entering = m.kept := by
      refine ⟨fun listed => m.entering_sublist.eq_of_length ?_, fun same => by rw [same]⟩
      simpa using (congrArg List.length listed).symm
    have tables : m.tables = s.compactor.tables := by rw [← told]
    rw [← tables] at distinct ⊢
    rw [all, Merge.entering,
      TableSet.added_receive_eq_iff (TableSet.nodup_removeAll distinct) m.full_kept]
    simp only [TableSet.mem_liveIds_removeAll, not_and_not_right]

omit [Quantity R] in
theorem flush_told (on : s.compactor.enabled = true) (tables : List Table) :
    s.FlushTold (s.takeIn tables).1 tables where
  live := by
    rw [takeIn_compactor]
    exact TableSet.receive_live _ _
  events := by
    rw [takeIn_compactor, flushReports, on]
    change s.compactor.events ++ _ = _
    rw [admits]
    cases (TableSet.added (s.compactor.tables.receive tables).2).isEmpty <;> rfl
  counted := s.tablesFlushed_takeIn tables

theorem passMerges_eq_nil (orderly : s.Orderly) (later : s.compactor.intake ≠ .merge) :
    s.passMerges = [] := by
  rw [passMerges]
  cases enabled : s.compactor.enabled with
  | false => exact mergesUpTo_off enabled _
  | true =>
    cases selected : s.selection with
    | none => exact mergesUpTo_none enabled selected _
    | some chosen => exact mergesUpTo_kept orderly enabled selected later _

theorem followed_pass (orderly : s.Orderly) (read : s.counters.bytesIn < UInt64.size)
    (written : s.counters.bytesOut < UInt64.size) : s.Followed s.pass.1 := by
  have course : Course True 0 s [] s.passMerges s.pass.1 := course_pass orderly
  obtain ⟨bytesIn, bytesOut⟩ := course.bytes read written
  exact ⟨(grows_acts course.acts).events, bytesIn, bytesOut, passMerges_eq_nil orderly⟩

theorem followed_replace (orderly : s.Orderly) (start : Moment) (inputs : List Table)
    (stop : Moment) (outputs : List Table) :
    (s.replace start inputs stop outputs).Followed (s.complete start inputs stop outputs) := by
  have positive : 0 < UInt64.size := by decide
  refine followed_pass (orderly.act (.replace s trivial start inputs stop outputs)) ?_ ?_
  · rw [replace_counters]
    exact Nat.mod_lt _ positive
  · rw [replace_counters]
    exact Nat.mod_lt _ positive

theorem events_flush (orderly : s.Orderly) (tables : List Table) :
    (s.takeIn tables).1.compactor.events <+: (s.flush tables).compactor.events := by
  rw [flush_eq]
  split
  · exact List.prefix_rfl
  · have taken : Act True s (s.takeIn tables).1 := .takeIn s tables
    have acts : ReflTransGen (Act True) (s.takeIn tables).1 (s.takeIn tables).1.pass.1 :=
      acts_pass (orderly.act taken)
    exact (grows_acts acts).events

omit [Quantity R] in
/-- The tables of a job that waits leave with its merge, as they are listed. -/
theorem Booked.inputs_told (booked : s.Booked) (orderly : s.Orderly) {job : Job R}
    (waits : job ∈ s.compactor.waiting) (outputs : List Table) :
    job.tables.map Entry.ofTable =
      (Merge.leaving ⟨s.compactor.tables, job.tables, outputs⟩).map Entry.ofTable := by
  rw [Entry.map_ofTable_inj, eq_comm]
  exact (TableSet.descriptors_removeAll_iff orderly.tables).2
    ⟨booked.distinct_tables waits, fun t held => ⟨t, booked.live job waits t held, rfl⟩⟩

/-- At an enabled compactor, whatever was called before, a flush is told by the tables that it adds,
and a merge by its inputs and outputs, whoever reports it. As long as merges are reported through
jobs, the tables of a job are those that leave with its merge. -/
theorem run_merges_told (s : Site R) (o : Opening R) (calls : List (Call R))
    (on : ((s.opened o).run calls).compactor.enabled = true) :
    let t := (s.opened o).run calls
    (∀ start inputs stop outputs,
      t.MergeTold (t.replace start inputs stop outputs) start
        ⟨t.compactor.tables, inputs, outputs⟩ stop ∧
      (t.replace start inputs stop outputs).Followed (t.complete start inputs stop outputs)) ∧
    (∀ job ∈ t.compactor.waiting, ∀ outputs,
      t.MergeTold (t.settleJob job outputs) job.startedAt
        ⟨t.compactor.tables, job.tables, outputs⟩ t.clock.moment ∧
      (t.settleJob job outputs).Followed (t.completeJob job outputs) ∧
      ((∀ call ∈ calls, call.direct = false) → job.tables.map Entry.ofTable =
        (Merge.leaving ⟨t.compactor.tables, job.tables, outputs⟩).map Entry.ofTable)) ∧
    ∀ tables, t.FlushTold (t.takeIn tables).1 tables ∧
      (t.takeIn tables).1.compactor.events <+: (t.flush tables).compactor.events := by
  intro t
  have orderly : t.Orderly := (s.orderly_opened o).acts (acts_run_any (s.orderly_opened o) calls)
  refine ⟨fun start inputs stop outputs => ?_, fun job waits outputs => ?_, fun tables => ?_⟩
  · exact ⟨merge_told on orderly.tables start inputs stop outputs,
      followed_replace orderly start inputs stop outputs⟩
  · have told := merge_told (s := t.withdraw job.id) on orderly.tables job.startedAt job.tables
      t.clock.moment outputs
    refine ⟨{ told with }, ?_, fun viaJobs => ?_⟩
    · exact followed_replace (orderly.withdraw job.id) job.startedAt job.tables t.clock.moment outputs
    · exact (booked_run s o calls viaJobs).inputs_told orderly waits outputs
  · exact ⟨flush_told on tables, events_flush orderly tables⟩

/-- While a job waits, a merge is reported of a live and an unknown table, with outputs of which one
is empty, one has a live ID and two share one. -/
theorem mixed_merge_told :
    let empty : Table := { id := 9, size := 0, place := 0 }
    let calls : List (Call Float) :=
      [.enable, .flush (Table.samples [1, 2, 3, 4]), .flush (Table.samples [5, 6])]
    let t := (sample.opened (.sample .keep)).run calls
    let m : Merge := ⟨t.compactor.tables, Table.samples [5, 8], empty :: Table.samples [6, 7, 7]⟩
    m.leaving = Table.samples [5] ∧ m.kept = Table.samples [6, 7, 7] ∧
      m.entering = Table.samples [7] ∧ t.compactor.waiting.length = 1 ∧
      t.compactor.enabled = true ∧ t.MergeTold (t.replace ⟨0⟩ m.inputs ⟨5⟩ m.outputs) ⟨0⟩ m ⟨5⟩ :=
  ⟨by decide +kernel, by decide +kernel, by decide +kernel, by decide +kernel, by decide +kernel,
    ((run_merges_told sample (.sample .keep) _ (by decide +kernel)).1 _ _ _ _).1⟩

/-- A merge of a table that is not live, into one whose ID is, changes nothing about the live tables.
It is told nevertheless, and its bytes count. -/
theorem told_without_effect :
    let calls : List (Call Float) := [.enable, .flush [⟨1, 10, 0⟩, ⟨2, 20, 1⟩]]
    let t := (sample.opened (.sample .keep)).run calls
    let m : Merge := ⟨t.compactor.tables, [⟨9, 30, 2⟩], [⟨2, 40, 3⟩]⟩
    let next := t.complete ⟨0⟩ m.inputs ⟨5⟩ m.outputs
    t.compactor.enabled = true ∧ m.leaving = [] ∧ m.entering = [] ∧
      next.compactor.tables = t.compactor.tables ∧
      next.compactor.events = t.compactor.events ++
        [{ store := t.compactor.store
           report := .compaction ⟨0⟩ ⟨5⟩ (m.inputs.map .ofTable) (m.outputs.map .ofTable) }] ∧
      ¬ (m.inputs.map Entry.ofTable = m.leaving.map .ofTable) ∧
      ¬ (m.outputs.map Entry.ofTable = m.entering.map .ofTable) ∧
      (t.counters.bytesIn, t.counters.bytesOut) = (0, 0) ∧
      (next.counters.bytesIn, next.counters.bytesOut) = (30, 40) := by
  decide +kernel

end Site

end TieredCompaction
