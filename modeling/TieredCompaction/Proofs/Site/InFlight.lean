import TieredCompaction.Proofs.Site.Calls
import TieredCompaction.Proofs.Site.Notices
import Mathlib.Data.List.Pairwise
/-!
Jobs exclude each other. What is in flight is what the waiting jobs hold, each table once, and stays
live until its job is resolved.
-/
namespace TieredCompaction

/-- The IDs of the tables that jobs hold, job by job. -/
def heldIds {R : Type} (jobs : List (Job R)) : List Nat :=
  jobs.flatMap fun job => job.tables.map (·.id)

section Jobs

variable {R : Type} {jobs : List (Job R)} {job : Job R}

theorem heldIds_append (jobs others : List (Job R)) :
    heldIds (jobs ++ others) = heldIds jobs ++ heldIds others :=
  List.flatMap_append

theorem length_heldIds (jobs : List (Job R)) :
    (heldIds jobs).length = sumBy (·.tables.length) jobs := by
  simp only [heldIds, length_flatMap, List.length_map]

theorem pairwise_disjoint (distinct : (heldIds jobs).Nodup) :
    jobs.Pairwise fun j k => List.Disjoint (j.tables.map (·.id)) (k.tables.map (·.id)) :=
  (List.nodup_flatMap.1 distinct).2

theorem disjoint_of_ne (distinct : (heldIds jobs).Nodup) {j k : Job R} (hj : j ∈ jobs)
    (hk : k ∈ jobs) (differ : j ≠ k) :
    List.Disjoint (j.tables.map (·.id)) (k.tables.map (·.id)) :=
  have : Std.Symm fun j k : Job R =>
      List.Disjoint (j.tables.map (·.id)) (k.tables.map (·.id)) := ⟨fun _ _ => List.disjoint_symm⟩
  (pairwise_disjoint distinct).forall hj hk differ

private theorem filter_heldIds_aux
    (apart : ∀ other ∈ jobs, other.id = job.id ∧ other.tables = job.tables ∨
      other.id ≠ job.id ∧ List.Disjoint (other.tables.map (·.id)) (job.tables.map (·.id))) :
    (heldIds jobs).filter (fun id => !job.tables.any (·.id == id)) =
      heldIds (jobs.filter (·.id != job.id)) := by
  induction jobs with
  | nil => rfl
  | cons other rest ih =>
    have ih := ih fun k member => apart k (List.mem_cons_of_mem _ member)
    rw [heldIds, List.flatMap_cons, List.filter_append]
    obtain ⟨same, tables⟩ | ⟨differ, disjoint⟩ := apart other List.mem_cons_self
    · have gone : (other.tables.map (·.id)).filter (fun id => !job.tables.any (·.id == id)) = [] := by
        rw [tables, List.filter_eq_nil_iff]
        intro id held
        simpa using held
      rw [gone, List.filter_cons_of_neg (by simp [same])]
      exact ih
    · have kept : (other.tables.map (·.id)).filter (fun id => !job.tables.any (·.id == id)) =
          other.tables.map (·.id) := by
        rw [List.filter_eq_self]
        intro id held
        rw [Bool.not_eq_true', ← Bool.not_eq_true, TableSet.any_id_iff]
        exact disjoint held
      rw [kept, List.filter_cons_of_pos (by simp [differ])]
      exact congrArg _ ih

/-- What a job holds leaves with the job, and nothing else does. -/
theorem filter_heldIds (waits : job ∈ jobs) (ids : (jobs.map (·.id)).Nodup)
    (distinct : (heldIds jobs).Nodup) :
    (heldIds jobs).filter (fun id => !job.tables.any (·.id == id)) =
      heldIds (jobs.filter (·.id != job.id)) := by
  refine filter_heldIds_aux fun other member => ?_
  by_cases same : other.id = job.id
  · exact .inl ⟨same, by rw [List.inj_on_of_nodup_map ids member waits same]⟩
  · have differ : other ≠ job := fun equal => same (by rw [equal])
    exact .inr ⟨same, disjoint_of_ne distinct member waits differ⟩

end Jobs

namespace Site

variable {R : Type}

/-- The tables in flight are those of the waiting jobs, no two under one ID, and all are live. -/
structure Booked (s : Site R) : Prop where
  held : s.compactor.tables.hidden = heldIds s.compactor.waiting
  distinct : s.compactor.tables.hidden.Nodup
  live : ∀ job ∈ s.compactor.waiting, ∀ t ∈ job.tables, t ∈ s.compactor.tables.live

namespace Booked

variable {s t : Site R}

/-- More live tables do no harm. -/
private theorem of_more_live (booked : s.Booked)
    (hidden : t.compactor.tables.hidden = s.compactor.tables.hidden)
    (waiting : t.compactor.waiting = s.compactor.waiting)
    (live : s.compactor.tables.live ⊆ t.compactor.tables.live) : t.Booked where
  held := by rw [hidden, waiting, booked.held]
  distinct := hidden ▸ booked.distinct
  live job waits u held := live (booked.live job (waiting ▸ waits) u held)

/-- A job that is resolved takes its tables out of flight. They may cease to be live, the tables of
other jobs may not. -/
private theorem of_resolved (booked : s.Booked) (orderly : s.Orderly) {job : Job R}
    (waits : job ∈ s.compactor.waiting)
    (hidden : t.compactor.tables.hidden =
      s.compactor.tables.hidden.filter fun id => !job.tables.any (·.id == id))
    (waiting : t.compactor.waiting = s.compactor.waiting.filter (·.id != job.id))
    (live : ∀ u ∈ s.compactor.tables.live, u.id ∉ job.tables.map (·.id) →
      u ∈ t.compactor.tables.live) : t.Booked where
  held := by
    rw [hidden, waiting, booked.held]
    exact filter_heldIds waits orderly.jobs (booked.held ▸ booked.distinct)
  distinct := hidden ▸ booked.distinct.sublist List.filter_sublist
  live other remains u held := by
    rw [waiting, List.mem_filter, bne_iff_ne] at remains
    have differ : other ≠ job := fun equal => remains.2 (by rw [equal])
    have apart := disjoint_of_ne (booked.held ▸ booked.distinct) remains.1 waits differ
    exact live u (booked.live other remains.1 u held) (apart (List.mem_map_of_mem held))

private theorem settleJob (booked : s.Booked) (orderly : s.Orderly) {job : Job R}
    (waits : job ∈ s.compactor.waiting) (outputs : List Table) :
    (s.settleJob job outputs).Booked := by
  have after := s.settleJob_compactor job outputs
  refine booked.of_resolved orderly waits ?_ (by rw [after]) ?_
  · rw [after]
    simp only [TableSet.receive_hidden, TableSet.removeAll_fst]
  · intro u live absent
    rw [after]
    simp only [TableSet.receive_live, List.mem_append, TableSet.mem_live_removeAll]
    exact .inl ⟨live, absent⟩

variable [Quantity R]

private theorem handOver (booked : s.Booked) (orderly : s.Orderly) {chosen : Selection R}
    (some : s.selection = some chosen) : (s.handOver chosen).Booked := by
  have free := selection_free some
  refine ⟨?_, ?_, ?_⟩ <;> rw [handOver_compactor]
  · simp only [take, heldIds_append, booked.held]
    simp [heldIds, jobOf]
  · refine List.nodup_append.2 ⟨booked.distinct, selection_distinct orderly.tables some, ?_⟩
    rintro id hidden _ new rfl
    obtain ⟨t, member, rfl⟩ := List.mem_map.1 new
    exact (free t member).2 hidden
  · intro job waits
    rcases List.mem_append.1 waits with old | new
    · exact booked.live job old
    · rw [List.mem_singleton.1 new]
      exact fun t member => (free t member).1

/-- Every act on jobs books the tables of the jobs that wait. -/
theorem act (booked : s.Booked) (orderly : s.Orderly) (act : Act False s t) : t.Booked := by
  cases act with
  | switchOn => exact booked.of_more_live rfl rfl (List.Subset.refl _)
  | switchOff on =>
    have same := disable_compactor on
    exact booked.of_more_live (by rw [same]) (by rw [same]) (by rw [same]; exact List.Subset.refl _)
  | takeIn tables =>
    have after := s.takeIn_compactor tables
    refine booked.of_more_live ?_ (by rw [after]) ?_
    · rw [after]
      exact TableSet.receive_hidden _ _
    · rw [after, TableSet.receive_live]
      exact List.subset_append_left _ _
  | passOver =>
    have same := s.passOver_compactor
    exact booked.of_more_live (by rw [same]) (by rw [same]) (by rw [same]; exact List.Subset.refl _)
  | handOver on some => exact booked.handOver orderly some
  | settle waits outputs => exact booked.settleJob orderly waits outputs
  | fail waits cause => exact booked.of_resolved orderly waits rfl rfl fun u live _ => live
  | drop waits => exact booked.of_resolved orderly waits rfl rfl fun u live _ => live
  | replace allowed => exact allowed.elim
  | giveBack allowed => exact allowed.elim
  | setThresholds => exact booked.of_more_live rfl rfl (List.Subset.refl _)
  | setIntake => exact booked.of_more_live rfl rfl (List.Subset.refl _)
  | elsewhere => exact booked.of_more_live rfl rfl (List.Subset.refl _)
  | count => exact booked.of_more_live rfl rfl (List.Subset.refl _)

end Booked

section Notices

variable {s t : Site R}

private theorem inFlight_flushNotices {ts tables : List Table} :
    .inFlight tables ∉ s.flushNotices ts := by
  simp only [flushNotices, List.mem_append, List.mem_filterMap, not_or, not_exists, not_and]
  refine ⟨fun handed _ => ?_, ?_⟩
  · obtain ⟨u, outcome⟩ := handed
    cases outcome <;> simp [flushNotice]
  · split <;> simp

private theorem inFlight_mergeNotices {start stop : Moment} {inputs outputs tables : List Table} :
    .inFlight tables ∉ s.mergeNotices start inputs stop outputs := by
  simp only [mergeNotices, List.mem_append, List.mem_filterMap, List.mem_map, not_or, not_exists,
    not_and]
  refine ⟨⟨by simp, fun handed _ => ?_⟩, by simp⟩
  obtain ⟨u, outcome⟩ := handed
  cases outcome <;> simp [outputNotice]

/-- No act finds that a selection is in flight already. -/
theorem inFlight_act [Quantity R] {direct : Prop} (act : Act direct s t) {tables : List Table}
    (told : .inFlight tables ∈ t.notices) : .inFlight tables ∈ s.notices := by
  cases act with
  | switchOn => simpa [switchOn_notices] using told
  | switchOff on => simpa [disable_notices on] using told
  | takeIn => simpa [takeIn_notices, inFlight_flushNotices] using told
  | passOver => simpa [passOver_notices] using told
  | handOver => simpa [handOver_notices] using told
  | settle => simpa [settleJob_notices, inFlight_mergeNotices] using told
  | fail => simpa [failJob_notices] using told
  | drop => simpa [dropJob_notices] using told
  | replace => simpa [replace_notices, inFlight_mergeNotices] using told
  | giveBack => simpa [giveBack_notices] using told
  | setThresholds => simpa [setThresholds, note] using told
  | setIntake => exact told
  | elsewhere => exact told
  | count => exact told

end Notices

variable [Quantity R]

/-- Jobs that are not resolved exclude each other. -/
structure Exclusive (s : Site R) : Prop where
  /-- What is in flight is what the waiting jobs hold, -/
  held : s.compactor.tables.hidden.Perm (heldIds s.compactor.waiting)
  /-- each table once, -/
  distinct : s.compactor.tables.hidden.Nodup
  /-- so that no two jobs share a table -/
  apart : s.compactor.waiting.Pairwise fun j k =>
    List.Disjoint (j.tables.map (·.id)) (k.tables.map (·.id))
  /-- and their lengths add up. -/
  counted : s.inFlightCount = sumBy (·.tables.length) s.compactor.waiting
  /-- Every table of a job is the live one under its ID. -/
  live : ∀ job ∈ s.compactor.waiting, ∀ t ∈ job.tables,
    s.compactor.tables.live.find? (·.id == t.id) = some t
  /-- Nothing in flight is selected. -/
  free : ∀ chosen, s.selection = some chosen →
    (s.compactor.tables.hide? chosen.tables).isSome = true

theorem Booked.exclusive {s : Site R} (booked : s.Booked) (orderly : s.Orderly) : s.Exclusive where
  held := .of_eq booked.held
  distinct := booked.distinct
  apart := pairwise_disjoint (booked.held ▸ booked.distinct)
  counted := by rw [inFlightCount, booked.held, length_heldIds]
  live job waits t held := TableSet.find?_live orderly.tables (booked.live job waits t held)
  free chosen some := by
    rw [TableSet.hide?_eq_some (selection_distinct orderly.tables some)
      fun t member => (selection_free some t member).2]
    rfl

theorem booked_run (s : Site R) (o : Opening R) (calls : List (Call R))
    (viaJobs : ∀ call ∈ calls, call.direct = false) : ((s.opened o).run calls).Booked := by
  have orderly := s.orderly_opened o
  refine invariant (fun orderly booked act => booked.act orderly act) (acts_run orderly calls ?_)
    orderly ⟨rfl, List.nodup_nil, fun _ waits => absurd waits List.not_mem_nil⟩
  intro call member direct
  exact absurd (viaJobs call member ▸ direct) Bool.false_ne_true

/-- Whatever is called in whatever order, jobs exclude each other as long as merges are reported
through them, and no evaluation finds that its selection is in flight already. -/
theorem run_exclusive (s : Site R) (o : Opening R) (calls : List (Call R))
    (viaJobs : ∀ call ∈ calls, call.direct = false) :
    ((s.opened o).run calls).Exclusive ∧
      ∀ tables, .inFlight tables ∈ ((s.opened o).run calls).notices →
        .inFlight tables ∈ s.notices := by
  have orderly := s.orderly_opened o
  have acts := acts_run_any orderly calls
  refine ⟨(booked_run s o calls viaJobs).exclusive (orderly.acts acts), fun tables => ?_⟩
  exact invariant (P := fun t => .inFlight tables ∈ t.notices → .inFlight tables ∈ s.notices)
    (fun _ before act told => before (inFlight_act act told)) acts orderly id

/-- Two jobs wait, and a merge of the first one gives a table under the ID of an input. -/
theorem reused_id_exclusive :
    let calls : List (Call Float) :=
      [.enable, .flush (Table.samples [1, 2, 3, 4]), .flush (Table.samples [5, 6, 7, 8]),
        .completeJob 0 (Table.samples [2])]
    let s := (sample.opened (.sample .keep)).run calls
    s.compactor.waiting.map (·.tables.map (·.id)) = [[5, 6, 7, 8]] ∧ s.Exclusive :=
  ⟨by decide +kernel, (run_exclusive sample (.sample .keep) _ (by decide)).1⟩

end Site

end TieredCompaction
