import TieredCompaction.Proofs.Site.InFlight
/-!
Nothing gets stuck. Each evaluation starts one job at most, and whatever it leaves undone is seen to
by a later one: while compaction is enabled, a merge is due only if a job waits, and the number of
merges last reported is the true one. Only the failure of a job and new thresholds are not followed
by an evaluation.
-/
namespace TieredCompaction

/-- Whether, after a notice, neither a job has failed nor the thresholds have changed since the last
evaluation. -/
def Notice.settles {R : Type} (settled : Bool) : Notice R → Bool
  | consulting => true
  | failed .. | thresholds .. => false
  | _ => settled

namespace Site

variable {R : Type} {s t : Site R}

/-- Whether neither a job has failed nor the thresholds have changed since the last evaluation. -/
def settled (s : Site R) : Bool :=
  s.notices.foldl Notice.settles false

theorem settled_of_notices {told : List (Notice R)} (notices : t.notices = s.notices ++ told) :
    t.settled = told.foldl Notice.settles s.settled := by
  rw [settled, notices, List.foldl_append]
  rfl

private theorem settled_failJob (job : Job R) (cause : Failure) :
    (s.failJob job cause).settled = false := by
  rw [settled_of_notices (s.failJob_notices job cause)]
  rfl

private theorem settled_dropJob (job : Job R) : (s.dropJob job).settled = false := by
  rw [settled_of_notices (s.dropJob_notices job)]
  rfl

private theorem foldl_settles_flush (outcomes : List (Table × TableSet.Reception)) (settled : Bool) :
    (outcomes.filterMap (flushNotice (R := R))).foldl Notice.settles settled = settled := by
  induction outcomes with
  | nil => rfl
  | cons first rest ih =>
    obtain ⟨t, outcome⟩ := first
    cases outcome <;> exact ih

variable [Quantity R]

/-- The merges due are reported, and if one is due, a job waits. -/
structure Current (s : Site R) : Prop where
  pending : s.counters.pending = s.estimate
  busy : s.estimate = 0 ∨ s.compactor.waiting ≠ []

/-- As long as compaction is enabled, the site is current unless a job failed or the thresholds
changed since the last evaluation. -/
def UpToDate (s : Site R) : Prop :=
  s.compactor.enabled = true → s.settled = true → s.Current

theorem current_passOver (none : s.selection = none) : s.passOver.Current := by
  have nothing : s.estimate = 0 := selection_eq_none_iff.1 none
  exact ⟨by rw [passOver_counters, estimate_passOver], .inl (s.estimate_passOver.trans nothing)⟩

theorem current_handOver (chosen : Selection R) : (s.handOver chosen).Current :=
  ⟨by rw [handOver_counters, estimate_handOver],
    .inr (List.ne_nil_of_mem (s.waits_handOver chosen))⟩

/-- The tables of a selection that is merged at once make way for one table at most. -/
theorem tableCount_merged_add_le (orderly : s.Orderly) {chosen : Selection R}
    (some : s.selection = some chosen) :
    ((s.handOver chosen).settleMerged (s.jobOf chosen)).tableCount + chosen.tables.length ≤
      s.tableCount + 1 := by
  have live : ∀ t ∈ (s.jobOf chosen).tables, t ∈ (s.handOver chosen).compactor.tables.live := by
    rw [live_handOver]
    exact fun t member => (selection_free some t member).1
  have fewer := tableCount_settleMerged_add_le (selection_distinct orderly.tables some) live
  rw [tableCount_handOver] at fewer
  exact fewer

/-- A chain of passes that is allowed more passes than there are tables leaves nothing undone. -/
theorem Chain.upToDate {limit : Nat} (chain : Chain limit s t) (enough : s.tableCount < limit) :
    t.UpToDate := by
  induction chain with
  | cut => exact absurd enough (Nat.not_lt_zero _)
  | off off => exact fun on => absurd (off.symm.trans on) Bool.false_ne_true
  | idle _ none => exact fun _ _ => current_passOver none
  | @keep s limit chosen => exact fun _ _ => current_handOver chosen
  | drop => exact fun _ settled => absurd (settled_dropJob _ ▸ settled) Bool.false_ne_true
  | merge orderly _ some _ _ ih =>
    -- each merge leaves fewer tables, so the limit cannot cut the chain off
    have two := two_le_length_selection some
    have fewer := tableCount_merged_add_le orderly some
    exact ih (by omega)

theorem upToDate_pass (orderly : s.Orderly) : s.pass.1.UpToDate :=
  (chain_passUpTo orderly _).upToDate (Nat.lt_succ_self _)

private theorem upToDate_act (orderly : s.Orderly) (act : Act False s t) :
    t.pass.1.UpToDate :=
  upToDate_pass (orderly.act act)

/-- Flushed tables none of which is new change nothing. -/
private theorem UpToDate.takeIn_nothing (upToDate : s.UpToDate) {tables : List Table}
    (nothing : (TableSet.added (s.compactor.tables.receive tables).2).isEmpty = true) :
    (s.takeIn tables).1.UpToDate := by
  have none : TableSet.added (s.compactor.tables.receive tables).2 = [] := by simpa using nothing
  have same : (s.compactor.tables.receive tables).1 = s.compactor.tables := by
    have live := s.compactor.tables.receive_live tables
    rw [none, List.append_nil] at live
    exact congrArg₂ TableSet.mk live (s.compactor.tables.receive_hidden tables)
  have settled : (s.takeIn tables).1.settled = s.settled := by
    rw [settled_of_notices (s.takeIn_notices tables), flushNotices, none]
    simp [foldl_settles_flush]
  have counters : (s.takeIn tables).1.counters = s.counters := by
    simp [Site.takeIn, none]
  have compactor : (s.takeIn tables).1.compactor = s.compactor := by
    rw [takeIn_compactor, same, none]
    simp [flushReports]
  intro on steady
  have current := upToDate (compactor ▸ on) (settled ▸ steady)
  refine ⟨?_, ?_⟩ <;> simp only [estimate, candidates, compactor, counters]
  · exact current.pending
  · exact current.busy

private theorem UpToDate.onJob {id : Nat} {f : Site R → Job R → Site R} (upToDate : s.UpToDate)
    (resolved : ∀ job ∈ s.compactor.waiting, (f s job).UpToDate) : (s.onJob id f).UpToDate := by
  rw [Site.onJob]
  split
  · next job found => exact resolved job (List.mem_of_find?_eq_some found)
  · exact upToDate

private theorem upToDate_of_unsettled (unsettled : s.settled = false) : s.UpToDate :=
  fun _ steady => absurd (unsettled ▸ steady) Bool.false_ne_true

/-- Every call is followed by the evaluation that it makes necessary. -/
theorem UpToDate.perform (upToDate : s.UpToDate) (orderly : s.Orderly) (call : Call R)
    (viaJobs : call.direct = false) (own : call.counts = false) : (s.perform call).UpToDate := by
  cases call with
  | enable =>
    cases enabled : s.compactor.enabled with
    | false =>
      rw [Site.perform, enable_of_off enabled]
      exact upToDate_act orderly (.switchOn enabled)
    | true =>
      rw [Site.perform, enable_of_on enabled]
      exact upToDate
  | disable =>
    cases enabled : s.compactor.enabled with
    | false =>
      rw [Site.perform, disable_of_off enabled]
      exact upToDate
    | true =>
      intro on
      rw [Site.perform, disable_compactor enabled] at on
      exact absurd on Bool.false_ne_true
  | flush tables =>
    rw [Site.perform, flush_eq]
    split
    · next nothing => exact upToDate.takeIn_nothing nothing
    · exact upToDate_act orderly (.takeIn s tables)
  | evaluate => exact upToDate_pass orderly
  | setThresholds t =>
    exact upToDate_of_unsettled (settled_of_notices (s := s) (t := s.setThresholds t) rfl)
  | completeJob id outputs =>
    exact upToDate.onJob fun job waits => upToDate_act orderly (.settle waits outputs)
  | failJob id cause =>
    exact upToDate.onJob fun job _ => upToDate_of_unsettled (settled_failJob job cause)
  | dropJob id =>
    exact upToDate.onJob fun job _ => upToDate_of_unsettled (settled_dropJob job)
  | complete => exact Bool.noConfusion viaJobs
  | giveBack => exact Bool.noConfusion viaJobs
  | setIntake => exact fun on steady => ⟨(upToDate on steady).pending, (upToDate on steady).busy⟩
  | elsewhere => exact fun on steady => ⟨(upToDate on steady).pending, (upToDate on steady).busy⟩
  | count => exact Bool.noConfusion own

theorem UpToDate.run (upToDate : s.UpToDate) (orderly : s.Orderly) {calls : List (Call R)}
    (viaJobs : ∀ call ∈ calls, call.direct = false) (own : ∀ call ∈ calls, call.counts = false) :
    (s.run calls).UpToDate := by
  induction calls generalizing s with
  | nil => exact upToDate
  | cons call rest ih =>
    obtain ⟨jobs, viaJobs⟩ := List.forall_mem_cons.1 viaJobs
    obtain ⟨mine, own⟩ := List.forall_mem_cons.1 own
    have acts : Relation.ReflTransGen (Act True) s (s.perform call) :=
      acts_perform orderly call fun _ => trivial
    exact ih (upToDate.perform orderly call jobs mine) (orderly.acts acts) viaJobs own

/-- While compaction is enabled and neither a job has failed nor the thresholds have changed since
the last evaluation, the counters tell how many merges are due; and if no job waits, none is due and
nothing is in flight. -/
theorem run_settled (s : Site R) (o : Opening R) (calls : List (Call R))
    (viaJobs : ∀ call ∈ calls, call.direct = false) (own : ∀ call ∈ calls, call.counts = false)
    (on : ((s.opened o).run calls).compactor.enabled = true)
    (settled : ((s.opened o).run calls).settled = true) :
    let t := (s.opened o).run calls
    t.counters.pending = t.estimate ∧
      (t.compactor.waiting = [] → t.estimate = 0 ∧ t.inFlightCount = 0) := by
  have upToDate : (s.opened o).UpToDate := fun on => absurd on Bool.false_ne_true
  have current := upToDate.run (s.orderly_opened o) viaJobs own on settled
  refine ⟨current.pending, fun idle => ⟨current.busy.resolve_right fun busy => busy idle, ?_⟩⟩
  have held : ((s.opened o).run calls).Booked := booked_run s o calls viaJobs
  rw [inFlightCount, held.held, idle]
  rfl

/-- Two buckets need a merge each, and the second one starts when the first job is done. -/
theorem two_merges_settled :
    let calls : List (Call Float) :=
      [.setThresholds ⟨2, 2, by decide, by decide⟩, .flush (Table.samples [1, 2]), .enable,
        .flush (Table.samples [3, 4]), .completeJob 0 [], .setIntake .merge, .completeJob 1 []]
    let t := (sample.opened (.sample .keep)).run calls
    t.compactor.submitted.length = 2 ∧ t.estimate = 0 ∧ t.inFlightCount = 0 :=
  have settled := run_settled sample (.sample .keep) _ (by decide) (by decide) (by decide +kernel)
    (by decide +kernel)
  ⟨by decide +kernel, settled.2 (by decide +kernel)⟩

end Site

end TieredCompaction
