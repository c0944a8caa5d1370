import TieredCompaction.Proofs.Site.Notices
import TieredCompaction.Proofs.Site.Order
import TieredCompaction.Proofs.Site.Surroundings
/-!
What arrives with a flush. Of the tables of a batch, those are new that are not empty and whose ID is
not live, and of those that share an ID the first one (`added_receive`). The live tables, the
counters, the event and whether there is an evaluation all follow from this list; and if it is empty,
a flush does nothing but tell what it left out (`flush_of_no_arrivals`). The evaluation takes nothing
back (`Chain.forbears`).
-/
namespace TieredCompaction

namespace TableSet

/-- The tables of a batch that are new to a set: they are not empty and their ID is not live, and each
is the first such table under its ID. -/
def arrivals (s : TableSet) (batch : List Table) : List Table :=
  (batch.filter fun t => 0 < t.size && !s.isLive t.id).eraseDupsBy Table.same

variable {s : TableSet} {t : Table} {batch : List Table}

theorem arrivals_cons_empty (empty : t.size = 0) :
    s.arrivals (t :: batch) = s.arrivals batch := by
  rw [arrivals, List.filter_cons_of_neg (by simp [empty]), arrivals]

theorem arrivals_cons_live (live : t.id ∈ s.liveIds) :
    s.arrivals (t :: batch) = s.arrivals batch := by
  rw [arrivals, List.filter_cons_of_neg (by simp [isLive_iff.2 live]), arrivals]

theorem arrivals_cons_new (full : t.size ≠ 0) (absent : t.id ∉ s.liveIds) :
    s.arrivals (t :: batch) = t :: arrivals { s with live := s.live ++ [t] } batch := by
  have free : s.isLive t.id = false := Bool.eq_false_iff.2 fun live => absent (isLive_iff.1 live)
  rw [arrivals, List.filter_cons_of_pos (by simp [Nat.pos_of_ne_zero full, free]),
    List.eraseDupsBy_cons, List.filter_filter, arrivals]
  -- from now on the ID of the first table is live as well
  congr 2
  refine List.filter_congr fun u _ => ?_
  by_cases same : u.id = t.id
  · simp [isLive, Table.same, same]
  · have other : (t.id == u.id) = false := beq_false_of_ne (Ne.symm same)
    simp [isLive, Table.same, same, other]

/-- Tables that are taken in one by one are those that are new. -/
theorem added_receive (s : TableSet) (batch : List Table) :
    added (s.receive batch).2 = s.arrivals batch := by
  induction batch generalizing s with
  | nil => rfl
  | cons t rest ih =>
    obtain ⟨empty, eq⟩ | ⟨_, live, eq⟩ | ⟨full, absent, eq⟩ := receive_cons s t rest
    · rw [eq, added_cons_empty, ih, arrivals_cons_empty empty]
    · rw [eq, added_cons_alreadyLive, ih, arrivals_cons_live live]
    · rw [eq, added_cons_added, ih, arrivals_cons_new full absent]

/-- A table of a batch is new to a set, and no table in front of it that is not empty has its ID. -/
def Arrives (s : TableSet) (batch : List Table) (t : Table) : Prop :=
  0 < t.size ∧ t.id ∉ s.liveIds ∧
    ∃ before after, batch = before ++ t :: after ∧ ∀ u ∈ before, 0 < u.size → u.id ≠ t.id

theorem arrives_cons {u : Table} : s.Arrives (u :: batch) t ↔
    (0 < t.size ∧ t.id ∉ s.liveIds ∧ t = u) ∨
      (0 < u.size → u.id ≠ t.id) ∧ s.Arrives batch t := by
  constructor
  · rintro ⟨full, absent, _ | ⟨v, before⟩, after, split, first⟩
    · exact .inl ⟨full, absent, (List.cons.inj split).1.symm⟩
    · obtain ⟨rfl, rfl⟩ := List.cons.inj split
      obtain ⟨head, first⟩ := List.forall_mem_cons.1 first
      exact .inr ⟨head, full, absent, before, after, rfl, first⟩
  · rintro (⟨full, absent, rfl⟩ | ⟨head, full, absent, before, after, rfl, first⟩)
    · exact ⟨full, absent, [], batch, rfl, by simp⟩
    · exact ⟨full, absent, u :: before, after, rfl, List.forall_mem_cons.2 ⟨head, first⟩⟩

theorem mem_arrivals : t ∈ s.arrivals batch ↔ s.Arrives batch t := by
  induction batch generalizing s with
  | nil => simp [arrivals, Arrives]
  | cons u rest ih =>
    rw [arrives_cons]
    by_cases empty : u.size = 0
    · rw [arrivals_cons_empty empty, ih]
      constructor
      · exact fun later => .inr ⟨fun full => absurd empty (Nat.ne_of_gt full), later⟩
      · rintro (⟨full, _, rfl⟩ | ⟨_, later⟩)
        · exact absurd empty (Nat.ne_of_gt full)
        · exact later
    by_cases live : u.id ∈ s.liveIds
    · rw [arrivals_cons_live live, ih]
      constructor
      · exact fun later => .inr ⟨fun _ same => later.2.1 (same ▸ live), later⟩
      · rintro (⟨_, absent, rfl⟩ | ⟨_, later⟩)
        · exact absurd live absent
        · exact later
    · -- behind `u` its ID is live
      have grown : t.id ∉ liveIds { s with live := s.live ++ [u] } ↔
          t.id ∉ s.liveIds ∧ u.id ≠ t.id := by
        simp [liveIds, eq_comm]
      rw [arrivals_cons_new empty live, List.mem_cons, ih, Arrives, grown]
      constructor
      · rintro (rfl | ⟨full, ⟨absent, other⟩, place⟩)
        · exact .inl ⟨Nat.pos_of_ne_zero empty, live, rfl⟩
        · exact .inr ⟨fun _ => other, full, absent, place⟩
      · rintro (⟨_, _, rfl⟩ | ⟨other, full, absent, place⟩)
        · exact .inl rfl
        · exact .inr ⟨full, ⟨absent, other (Nat.pos_of_ne_zero empty)⟩, place⟩

theorem arrivals_eq_nil_iff :
    s.arrivals batch = [] ↔ ∀ t ∈ batch, 0 < t.size → t.id ∈ s.liveIds := by
  have none : s.arrivals batch = [] ↔
      batch.filter (fun t => 0 < t.size && !s.isLive t.id) = [] := by
    rw [arrivals]
    cases batch.filter fun t => 0 < t.size && !s.isLive t.id with
    | nil => exact Iff.rfl
    | cons t rest => simp [List.eraseDupsBy_cons]
  rw [none, List.filter_eq_nil_iff]
  refine forall₂_congr fun t _ => ?_
  simp only [Bool.and_eq_true, decide_eq_true_eq, Bool.not_eq_true', not_and, Bool.not_eq_false,
    isLive_iff]

/-- A set that takes nothing in stays as it is. -/
theorem receive_of_no_arrivals (none : s.arrivals batch = []) :
    s.receive batch =
      (s, batch.map fun t => (t, if t.size = 0 then .empty else .alreadyLive)) := by
  induction batch with
  | nil => rfl
  | cons t rest ih =>
    have known := arrivals_eq_nil_iff.1 none
    have ih := ih (arrivals_eq_nil_iff.2 fun u later => known u (List.mem_cons_of_mem _ later))
    obtain ⟨empty, eq⟩ | ⟨full, _, eq⟩ | ⟨full, absent, _⟩ := receive_cons s t rest
    · rw [eq, ih, List.map_cons, if_pos empty]
    · rw [eq, ih, List.map_cons, if_neg full]
    · exact absurd (known t List.mem_cons_self (Nat.pos_of_ne_zero full)) absent

end TableSet

namespace Site

variable {R : Type}

/-- What is told of a flushed table that is not new. -/
def leftOut (t : Table) : Notice R :=
  if t.size = 0 then .emptyFlush t else .liveFlush t

/-- The tables that are new at `s` have been taken in at `t`, in the order of the batch. All else is as
before, what is live or in flight included, but for the counters and the event. -/
structure TakesIn (s : Site R) (new : List Table) (t : Site R) : Prop where
  compactor : t.compactor = { s.compactor with
    tables := { s.compactor.tables with live := s.compactor.tables.live ++ new }
    events := s.compactor.events ++ s.flushReports new }
  counters : t.counters = { s.counters with
    flushes := s.counters.flushes + if new.isEmpty then 0 else 1
    tablesFlushed := s.counters.tablesFlushed + new.length }
  surroundings : Inside s t

theorem takesIn_takeIn (s : Site R) (batch : List Table) :
    s.TakesIn (s.compactor.tables.arrivals batch) (s.takeIn batch).1 where
  compactor := by
    have tables : (s.compactor.tables.receive batch).1 = { s.compactor.tables with
        live := s.compactor.tables.live ++ s.compactor.tables.arrivals batch } := by
      rw [← TableSet.added_receive, ← TableSet.receive_live]
      exact congrArg (TableSet.mk _) (s.compactor.tables.receive_hidden batch)
    rw [takeIn_compactor, tables, TableSet.added_receive]
  counters := by
    rw [takeIn_counters, TableSet.added_receive]
    cases s.compactor.tables.arrivals batch <;> rfl
  surroundings := s.inside_takeIn batch

/-- While compaction is enabled, new tables are told of in one event, in their order, by their IDs and
sizes. -/
theorem TakesIn.told {s t : Site R} {new : List Table} (takes : s.TakesIn new t)
    (on : s.compactor.enabled = true) (some : new ≠ []) :
    ∃ entries, List.Forall₂ (fun t e => e.Tells t) new entries ∧
      t.compactor.events = s.compactor.events ++
        [{ store := s.compactor.store, report := .flush entries }] := by
  refine ⟨new.map .ofTable, Entry.map_ofTable_eq_iff.1 rfl, ?_⟩
  have full : new.isEmpty = false := List.isEmpty_eq_false_iff.2 some
  rw [takes.compactor]
  simp only [flushReports, on, full, Bool.not_false, Bool.and_self, if_true]

/-- The passes from `s` to `t` take nothing of a flush back: nothing in flight leaves flight, and a live
table stays unless it is merged with a job that they hand over. They tell of no flush. -/
structure Forbears (s t : Site R) : Prop where
  inFlight : s.compactor.tables.hidden ⊆ t.compactor.tables.hidden
  booked : ∀ x ∈ s.compactor.tables.live, x.id ∈ s.compactor.tables.hidden →
    x ∈ t.compactor.tables.live
  merged : ∃ jobs, t.compactor.submitted = s.compactor.submitted ++ jobs ∧
    ∀ x ∈ s.compactor.tables.live, x ∈ t.compactor.tables.live ∨ ∃ job ∈ jobs, x ∈ job.tables
  events : ∃ later, t.compactor.events = s.compactor.events ++ later ∧
    ∀ e ∈ later, ∀ tables, e.report ≠ .flush tables
  flushes : t.counters.flushes = s.counters.flushes
  tablesFlushed : t.counters.tablesFlushed = s.counters.tablesFlushed

variable {s t u : Site R}

theorem Forbears.refl (s : Site R) : s.Forbears s where
  inFlight := List.Subset.refl _
  booked _ live _ := live
  merged := ⟨[], (List.append_nil _).symm, fun _ live => .inl live⟩
  events := ⟨[], (List.append_nil _).symm, by simp⟩
  flushes := rfl
  tablesFlushed := rfl

theorem Forbears.trans (first : s.Forbears t) (second : t.Forbears u) : s.Forbears u where
  inFlight := List.Subset.trans first.inFlight second.inFlight
  booked x live hidden := second.booked x (first.booked x live hidden) (first.inFlight hidden)
  merged := by
    obtain ⟨jobs, submitted, gone⟩ := first.merged
    obtain ⟨more, later, lost⟩ := second.merged
    refine ⟨jobs ++ more, by rw [later, submitted, List.append_assoc], fun x live => ?_⟩
    rcases gone x live with stays | ⟨job, held, member⟩
    · rcases lost x stays with still | ⟨job, held, member⟩
      · exact .inl still
      · exact .inr ⟨job, List.mem_append_right _ held, member⟩
    · exact .inr ⟨job, List.mem_append_left _ held, member⟩
  events := by
    obtain ⟨reports, told, none⟩ := first.events
    obtain ⟨more, later, nor⟩ := second.events
    refine ⟨reports ++ more, by rw [later, told, List.append_assoc], fun e member => ?_⟩
    exact (List.mem_append.1 member).elim (none e) (nor e)
  flushes := second.flushes.trans first.flushes
  tablesFlushed := second.tablesFlushed.trans first.tablesFlushed

theorem mergeReports_flush (s : Site R) (start : Moment) (inputs : List Table) (stop : Moment)
    (outputs : List Table) :
    ∀ e ∈ s.mergeReports start inputs stop outputs, ∀ tables, e.report ≠ .flush tables := by
  rw [mergeReports]
  split <;> simp

variable [Quantity R]

/-- If nothing is new, nothing happens but that every table of the batch is told of. -/
theorem flush_of_no_arrivals {batch : List Table}
    (none : s.compactor.tables.arrivals batch = []) :
    s.flush batch = s.noteAll (batch.map leftOut) := by
  have outcomes := TableSet.receive_of_no_arrivals none
  have added := s.compactor.tables.added_receive batch
  rw [outcomes, none] at added
  have told : (batch.map fun t => (t, if t.size = 0 then TableSet.Reception.empty
      else .alreadyLive)).filterMap flushNotice = batch.map (leftOut : Table → Notice R) := by
    rw [List.filterMap_map, ← List.filterMap_eq_map]
    refine List.filterMap_congr fun t _ => ?_
    by_cases empty : t.size = 0 <;> simp [empty, flushNotice, leftOut]
  simp only [flush, takeIn, outcomes, added, told, List.isEmpty_nil, if_true]
  rfl

theorem flush_of_arrivals {batch : List Table}
    (some : s.compactor.tables.arrivals batch ≠ []) :
    s.flush batch = (s.takeIn batch).1.pass.1 := by
  rw [flush_eq, TableSet.added_receive, if_neg (by simpa using some)]

theorem dueReports_flush (s : Site R) : ∀ e ∈ s.dueReports, ∀ tables, e.report ≠ .flush tables := by
  rw [dueReports]
  split <;> simp

theorem forbears_passOver (s : Site R) : s.Forbears s.passOver := by
  have compactor := s.passOver_compactor
  have counters := s.passOver_counters
  constructor <;> simp only [compactor, counters]
  case inFlight => exact List.Subset.refl _
  case booked => exact fun _ live _ => live
  case merged => exact ⟨[], (List.append_nil _).symm, fun _ live => .inl live⟩
  case events => exact ⟨_, rfl, s.dueReports_flush⟩

theorem forbears_handOver (s : Site R) (chosen : Selection R) :
    s.Forbears (s.handOver chosen) := by
  have compactor := s.handOver_compactor chosen
  have counters := s.handOver_counters chosen
  constructor <;> simp only [compactor, counters]
  case inFlight => exact List.subset_append_left _ _
  case booked => exact fun _ live _ => live
  case merged => exact ⟨_, rfl, fun _ live => .inl live⟩
  case events => exact ⟨_, rfl, (s.take chosen).dueReports_flush⟩

/-- A job that is thrown away has changed no table. -/
theorem forbears_dropped {chosen : Selection R} (some : s.selection = some chosen) :
    s.Forbears ((s.handOver chosen).dropJob (s.jobOf chosen)) := by
  have handed := s.forbears_handOver chosen
  have tables := tables_dropJob_handOver some
  constructor
  case inFlight =>
    rw [tables]
    exact List.Subset.refl _
  case booked =>
    rw [tables]
    exact fun _ live _ => live
  case merged =>
    obtain ⟨jobs, submitted, _⟩ := handed.merged
    rw [tables, dropJob_compactor]
    exact ⟨jobs, submitted, fun _ live => .inl live⟩
  case events =>
    rw [dropJob_compactor]
    exact handed.events
  case flushes =>
    rw [dropJob_counters]
    exact handed.flushes
  case tablesFlushed =>
    rw [dropJob_counters]
    exact handed.tablesFlushed

/-- A job that is merged at once takes its own tables away, none of which was in flight. -/
theorem forbears_merged (orderly : s.Orderly) {chosen : Selection R}
    (some : s.selection = some chosen) :
    s.Forbears ((s.handOver chosen).settleMerged (s.jobOf chosen)) := by
  have free := selection_free some
  have apart {id : Nat} (hidden : id ∈ s.compactor.tables.hidden) :
      id ∉ chosen.tables.map (·.id) := by
    intro taken
    obtain ⟨x, member, rfl⟩ := List.mem_map.1 taken
    exact (free x member).2 hidden
  have handed := s.handOver_compactor chosen
  have compactor := (s.handOver chosen).settleMerged_compactor (s.jobOf chosen)
  have stays {x : Table} (live : x ∈ s.compactor.tables.live) (other : x.id ∉ chosen.tables.map (·.id)) :
      x ∈ ((s.handOver chosen).settleMerged (s.jobOf chosen)).compactor.tables.live := by
    rw [compactor]
    dsimp only
    rw [TableSet.receive_live]
    refine List.mem_append_left _ (TableSet.mem_live_removeAll.2 ⟨?_, other⟩)
    rw [live_handOver]
    exact live
  constructor
  case inFlight =>
    intro id hidden
    rw [compactor]
    dsimp only
    rw [TableSet.receive_hidden, TableSet.removeAll_fst, handed]
    refine List.mem_filter.2 ⟨List.mem_append_left _ hidden, ?_⟩
    rw [Bool.not_eq_true', ← Bool.not_eq_true, TableSet.any_id_iff]
    exact apart hidden
  case booked => exact fun x live hidden => stays live (apart hidden)
  case merged =>
    refine ⟨[s.jobOf chosen], by rw [compactor, handed], fun x live => ?_⟩
    by_cases taken : x.id ∈ chosen.tables.map (·.id)
    · obtain ⟨y, member, same⟩ := List.mem_map.1 taken
      have alike : x = y := TableSet.eq_of_id_eq orderly.tables live (free y member).1 same.symm
      exact .inr ⟨_, List.mem_singleton_self _, alike ▸ member⟩
    · exact .inl (stays live taken)
  case events =>
    refine ⟨_, by rw [compactor, handed]; exact List.append_assoc _ _ _, fun e member => ?_⟩
    rcases List.mem_append.1 member with due | merge
    · exact dueReports_flush _ e due
    · exact mergeReports_flush _ _ _ _ _ e merge
  case flushes => rw [settleMerged_counters, handOver_counters]; rfl
  case tablesFlushed => rw [settleMerged_counters, handOver_counters]; rfl

theorem Chain.forbears {limit : Nat} (chain : Chain limit s t) : s.Forbears t := by
  induction chain with
  | cut => exact .refl _
  | off => exact .refl _
  | idle => exact forbears_passOver _
  | keep => exact forbears_handOver _ _
  | drop _ _ some => exact forbears_dropped some
  | merge orderly _ some _ _ ih => exact (forbears_merged orderly some).trans ih

/-- Only a queue that merges jobs at once changes what is live within a pass. -/
theorem Chain.live_eq {limit : Nat} (chain : Chain limit s t) (later : s.compactor.intake ≠ .merge) :
    t.compactor.tables.live = s.compactor.tables.live := by
  cases chain with
  | cut => rfl
  | off => rfl
  | idle => rw [passOver_compactor]
  | keep => exact live_handOver _ _
  | drop _ _ some => rw [tables_dropJob_handOver some]
  | merge _ _ _ merge => exact absurd merge later

theorem takeIn_of_no_arrivals {batch : List Table} (none : s.compactor.tables.arrivals batch = []) :
    (s.takeIn batch).1 = s.flush batch := by
  rw [flush_eq, TableSet.added_receive, none]
  rfl

/-- Whatever was called before, and whatever the queue does with jobs: a flush takes in the tables of
its batch that are new, counts and tells them in the order of the batch (`TakesIn.told`), and an
evaluation follows.
What was live stays so under its ID, and what was in flight stays in flight, until a job merges it.
If nothing is new, there is no evaluation, and nothing happens but that the tables are told of one by
one; so it is when live tables are flushed again. -/
theorem run_flush_takes_in_new (site : Site R) (o : Opening R) (calls : List (Call R))
    (batch : List Table) :
    let s := (site.opened o).run calls
    let new := s.compactor.tables.arrivals batch
    let taken := (s.takeIn batch).1
    (new.Sublist batch ∧ (new.map (·.id)).Nodup ∧
      ∀ t, t ∈ new ↔ s.compactor.tables.Arrives batch t) ∧
    s.TakesIn new taken ∧ taken.Forbears (s.flush batch) ∧
    (s.compactor.intake ≠ .merge →
      (s.flush batch).compactor.tables.live = s.compactor.tables.live ++ new) ∧
    (new ≠ [] → s.flush batch = taken.pass.1) ∧
    (new = [] → s.flush batch = s.noteAll (batch.map leftOut)) ∧
    ∀ again : List Table, (∀ t ∈ again, t.id ∈ s.compactor.tables.liveIds) →
      s.flush again = s.noteAll (again.map leftOut) := by
  intro s new taken
  have opened := site.orderly_opened o
  have orderly : s.Orderly := opened.acts (acts_run_any opened calls)
  have takes : s.TakesIn new taken := s.takesIn_takeIn batch
  have live : taken.compactor.tables.live = s.compactor.tables.live ++ new := by
    rw [takes.compactor]
  have act : Act True s taken := .takeIn s batch
  have settled : taken.Orderly := orderly.act act
  have chain : Chain (taken.tableCount + 1) taken taken.pass.1 := chain_passUpTo settled _
  refine ⟨⟨?_, ?_, fun t => TableSet.mem_arrivals⟩, takes, ?_, fun later => ?_, flush_of_arrivals,
    flush_of_no_arrivals, fun again known => ?_⟩
  · have part := s.compactor.tables.added_sublist batch
    rwa [TableSet.added_receive] at part
  · have distinct := settled.tables
    rw [TableSet.liveIds, live, List.map_append] at distinct
    exact (List.nodup_append.1 distinct).2.1
  · by_cases none : new = []
    · exact takeIn_of_no_arrivals none ▸ .refl _
    · exact flush_of_arrivals none ▸ chain.forbears
  · by_cases none : new = []
    · rw [← live, ← takeIn_of_no_arrivals none]
    · have same : taken.compactor.intake = s.compactor.intake := by rw [takes.compactor]
      rw [flush_of_arrivals none, ← live]
      exact chain.live_eq (same ▸ later)
  · apply flush_of_no_arrivals
    exact TableSet.arrivals_eq_nil_iff.2 fun t member _ => known t member

/-- One ID comes with an empty table first, two are live, one of them in flight, and one comes
twice. -/
example :
    let calls : List (Call Float) :=
      [.enable, .flush (Table.samples [1, 2, 3, 4]), .flush (Table.samples [5])]
    let s := (sample.opened (.sample .keep)).run calls
    s.inFlightCount = 4 ∧
      s.compactor.tables.arrivals
          [⟨7, 0, 0⟩, ⟨1, 30, 0⟩, ⟨6, 20, 0⟩, ⟨6, 40, 0⟩, ⟨5, 10, 0⟩, ⟨7, 50, 0⟩] =
        [⟨6, 20, 0⟩, ⟨7, 50, 0⟩] := by
  decide +kernel

end Site

end TieredCompaction
