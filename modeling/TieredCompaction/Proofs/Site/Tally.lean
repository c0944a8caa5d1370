import TieredCompaction.Proofs.Site.Calls
/-!
The counts of jobs. Jobs are numbered as they are handed over; as long as they are resolved one by
one, those that were handed over are those that completed, those that failed and those that wait.
-/
namespace TieredCompaction

/-- The job that a call resolves. -/
def Call.resolves {R : Type} : Call R → Option Nat
  | completeJob id _ | failJob id _ | dropJob id => some id
  | _ => none

namespace Site

variable {R : Type}

/-- Jobs are numbered in the order in which they were handed over. -/
structure Numbered (s : Site R) : Prop where
  ids : s.compactor.submitted.map (·.id) = List.range s.compactor.nextJob
  known : s.compactor.waiting.Sublist s.compactor.submitted

/-- Each job has been counted as it was handed over. If it does not wait, it has been counted once
more, as completed or as failed. -/
structure Tallied (s : Site R) : Prop where
  counted : s.counters.submitted = s.compactor.nextJob
  balance : s.counters.submitted =
    s.counters.completed + s.counters.failed + s.compactor.waiting.length

variable {s t : Site R}

theorem Orderly.of_compactor (orderly : s.Orderly) (same : t.compactor = s.compactor) :
    t.Orderly where
  tables := same ▸ orderly.tables
  jobs := same ▸ orderly.jobs
  issued := same ▸ orderly.issued

theorem Orderly.withdraw (orderly : s.Orderly) (id : Nat) : (s.withdraw id).Orderly where
  tables := orderly.tables
  jobs := orderly.jobs.sublist (List.filter_sublist.map _)
  issued job waits := orderly.issued job (List.filter_sublist.subset waits)

theorem numbered_opened (s : Site R) (o : Opening R) : (s.opened o).Numbered where
  ids := rfl
  known := .slnil

/-- What an act does to jobs: some may leave the queue, or the next one is handed over. -/
theorem jobs_act [Quantity R] {direct : Prop} (act : Act direct s t) :
    (t.compactor.nextJob = s.compactor.nextJob ∧
        t.compactor.submitted = s.compactor.submitted ∧
        t.compactor.waiting.Sublist s.compactor.waiting) ∨
      ∃ job, job.id = s.compactor.nextJob ∧ t.compactor.nextJob = s.compactor.nextJob + 1 ∧
        t.compactor.submitted = s.compactor.submitted ++ [job] ∧
        t.compactor.waiting = s.compactor.waiting ++ [job] := by
  have of_same {u : Site R} (next : u.compactor.nextJob = s.compactor.nextJob)
      (submitted : u.compactor.submitted = s.compactor.submitted)
      (waiting : u.compactor.waiting = s.compactor.waiting) :
      u.compactor.nextJob = s.compactor.nextJob ∧ u.compactor.submitted = s.compactor.submitted ∧
        u.compactor.waiting.Sublist s.compactor.waiting := by
    refine ⟨next, submitted, ?_⟩
    rw [waiting]
  cases act with
  | switchOff on =>
    have same := disable_compactor on
    exact .inl (of_same (by rw [same]) (by rw [same]) (by rw [same]))
  | takeIn tables =>
    have same := s.takeIn_compactor tables
    exact .inl (of_same (by rw [same]) (by rw [same]) (by rw [same]))
  | passOver =>
    have same := s.passOver_compactor
    exact .inl (of_same (by rw [same]) (by rw [same]) (by rw [same]))
  | @handOver chosen =>
    rw [handOver_compactor]
    exact .inr ⟨s.jobOf chosen, rfl, rfl, rfl, rfl⟩
  | @settle job waits outputs =>
    rw [settleJob_compactor]
    exact .inl ⟨rfl, rfl, List.filter_sublist⟩
  | fail => exact .inl ⟨rfl, rfl, List.filter_sublist⟩
  | drop => exact .inl ⟨rfl, rfl, List.filter_sublist⟩
  | replace allowed start inputs stop outputs =>
    have same := s.replace_compactor start inputs stop outputs
    exact .inl (of_same (by rw [same]) (by rw [same]) (by rw [same]))
  | _ => exact .inl ⟨rfl, rfl, .refl _⟩

namespace Numbered

theorem length_submitted (numbered : s.Numbered) :
    s.compactor.submitted.length = s.compactor.nextJob := by
  have ids := congrArg List.length numbered.ids
  rwa [List.length_map, List.length_range] at ids

private theorem of_fewer_jobs (numbered : s.Numbered)
    (next : t.compactor.nextJob = s.compactor.nextJob)
    (submitted : t.compactor.submitted = s.compactor.submitted)
    (jobs : t.compactor.waiting.Sublist s.compactor.waiting) : t.Numbered where
  ids := by rw [submitted, next, numbered.ids]
  known := by
    rw [submitted]
    exact jobs.trans numbered.known

theorem withdraw (numbered : s.Numbered) (id : Nat) : (s.withdraw id).Numbered :=
  numbered.of_fewer_jobs rfl rfl List.filter_sublist

theorem of_compactor (numbered : s.Numbered) (same : t.compactor = s.compactor) : t.Numbered :=
  numbered.of_fewer_jobs (by rw [same]) (by rw [same]) (by rw [same])

theorem act [Quantity R] {direct : Prop} (numbered : s.Numbered) (act : Act direct s t) :
    t.Numbered := by
  rcases jobs_act act with ⟨next, submitted, jobs⟩ | ⟨job, named, next, submitted, waiting⟩
  · exact numbered.of_fewer_jobs next submitted jobs
  · constructor
    · rw [submitted, next, List.map_append, numbered.ids, List.map_singleton, named,
        List.range_succ]
    · rw [submitted, waiting]
      exact numbered.known.append (List.Sublist.refl _)

theorem acts [Quantity R] {direct : Prop} (numbered : s.Numbered)
    (acts : Relation.ReflTransGen (Act direct) s t) : t.Numbered := by
  induction acts with
  | refl => exact numbered
  | tail _ act ih => exact ih.act act

end Numbered

theorem Tallied.running (tallied : s.Tallied) :
    s.counters.running = s.compactor.waiting.length := by
  have balance := tallied.balance
  rw [Counters.running]
  omega

/-- The number of running jobs is a true difference. -/
theorem Tallied.not_truncated (tallied : s.Tallied) :
    s.counters.completed ≤ s.counters.submitted ∧
      s.counters.failed ≤ s.counters.submitted - s.counters.completed := by
  have balance := tallied.balance
  constructor <;> omega

/-- A job that is resolved leaves the queue, and no other one does. -/
theorem ids_withdraw (orderly : s.Orderly) (id : Nat) :
    (s.compactor.waiting.filter (·.id != id)).map (·.id) =
      (s.compactor.waiting.map (·.id)).erase id := by
  rw [orderly.jobs.erase_eq_filter, List.filter_map]
  rfl

theorem length_withdraw (orderly : s.Orderly) {job : Job R} (waits : job ∈ s.compactor.waiting) :
    s.compactor.waiting.length = (s.compactor.waiting.filter (·.id != job.id)).length + 1 := by
  have left := congrArg List.length (ids_withdraw orderly job.id)
  rw [List.length_map, List.length_erase_of_mem (List.mem_map_of_mem waits), List.length_map]
    at left
  have some : 0 < s.compactor.waiting.length := List.length_pos_of_mem waits
  omega

namespace Tallied

/-- Nothing is handed over and nothing is resolved. -/
theorem of_same (tallied : s.Tallied)
    (next : t.compactor.nextJob = s.compactor.nextJob)
    (waiting : t.compactor.waiting = s.compactor.waiting)
    (counted : t.counters.submitted = s.counters.submitted)
    (resolved : t.counters.completed + t.counters.failed =
      s.counters.completed + s.counters.failed) : t.Tallied where
  counted := by rw [counted, next, tallied.counted]
  balance := by rw [counted, resolved, waiting, tallied.balance]

/-- One waiting job is resolved. -/
private theorem of_resolved (tallied : s.Tallied) (orderly : s.Orderly) {job : Job R}
    (waits : job ∈ s.compactor.waiting)
    (next : t.compactor.nextJob = s.compactor.nextJob)
    (waiting : t.compactor.waiting = s.compactor.waiting.filter (·.id != job.id))
    (counted : t.counters.submitted = s.counters.submitted)
    (resolved : t.counters.completed + t.counters.failed =
      s.counters.completed + s.counters.failed + 1) : t.Tallied where
  counted := by rw [counted, next, tallied.counted]
  balance := by
    have left := length_withdraw orderly waits
    have balance := tallied.balance
    rw [counted, resolved, waiting]
    omega

theorem settle (tallied : s.Tallied) (orderly : s.Orderly) {job : Job R}
    (waits : job ∈ s.compactor.waiting) (outputs : List Table) :
    (s.settleJob job outputs).Tallied := by
  have after := s.settleJob_compactor job outputs
  have counters := s.settleJob_counters job outputs
  have counted : (s.settleJob job outputs).counters.submitted = s.counters.submitted := by
    rw [counters]
    rfl
  refine tallied.of_resolved orderly waits (by rw [after]) (by rw [after]) counted ?_
  rw [counters]
  exact Nat.add_right_comm _ _ _

theorem fail (tallied : s.Tallied) (orderly : s.Orderly) {job : Job R}
    (waits : job ∈ s.compactor.waiting) (cause : Failure) : (s.failJob job cause).Tallied :=
  tallied.of_resolved orderly waits rfl rfl rfl rfl

theorem drop (tallied : s.Tallied) (orderly : s.Orderly) {job : Job R}
    (waits : job ∈ s.compactor.waiting) : (s.dropJob job).Tallied :=
  tallied.of_resolved orderly waits rfl rfl rfl rfl

theorem takeIn (tallied : s.Tallied) (tables : List Table) : (s.takeIn tables).1.Tallied := by
  have after := s.takeIn_compactor tables
  have counters := s.takeIn_counters tables
  refine tallied.of_same (by rw [after]) (by rw [after]) ?_ ?_ <;> rw [counters] <;>
    split <;> rfl

theorem disable (tallied : s.Tallied) (on : s.compactor.enabled = true) :
    s.disable.1.Tallied := by
  have after := disable_compactor on
  have counters : s.disable.1.counters = s.counters := by
    simp only [Site.disable, on, if_true]
    rfl
  exact tallied.of_same (by rw [after]) (by rw [after]) (by rw [counters]) (by rw [counters])

variable [Quantity R]

theorem passOver (tallied : s.Tallied) : s.passOver.Tallied := by
  have after := s.passOver_compactor
  have counters := s.passOver_counters
  exact tallied.of_same (by rw [after]) (by rw [after]) (by rw [counters]) (by rw [counters])

theorem handOver (tallied : s.Tallied) (chosen : Selection R) : (s.handOver chosen).Tallied := by
  constructor
  · rw [handOver_counters, handOver_compactor, tallied.counted]
  · have balance := tallied.balance
    rw [handOver_counters, handOver_compactor, List.length_append, List.length_singleton]
    dsimp only
    omega

theorem settleMerged (tallied : s.Tallied) (orderly : s.Orderly) {job : Job R}
    (waits : job ∈ s.compactor.waiting) : (s.settleMerged job).Tallied := by
  have made : (s.mergeOutput job).2.Tallied := tallied.of_same rfl rfl rfl rfl
  have act : Act False s (s.mergeOutput job).2 := .elsewhere s _ _ s.clock
  exact made.settle (orderly.act act) waits _

theorem chain {limit : Nat} (tallied : s.Tallied) (chain : Chain limit s t) : t.Tallied := by
  induction chain with
  | cut => exact tallied
  | off => exact tallied
  | idle => exact tallied.passOver
  | keep => exact tallied.handOver _
  | @drop s limit chosen orderly on some =>
    have act : Act False s (s.handOver chosen) := .handOver on some
    exact (tallied.handOver chosen).drop (orderly.act act) (s.waits_handOver chosen)
  | @merge s t limit chosen orderly on some merge rest ih =>
    have act : Act False s (s.handOver chosen) := .handOver on some
    exact ih ((tallied.handOver chosen).settleMerged (orderly.act act) (s.waits_handOver chosen))

/-- An act that leaves the counts right, and the evaluation that follows. -/
private theorem then_pass (orderly : s.Orderly) (act : Act False s t) (tallied : t.Tallied) :
    t.pass.1.Tallied :=
  tallied.chain (chain_passUpTo (orderly.act act) _)

omit [Quantity R] in
private theorem onJob (tallied : s.Tallied) {id : Nat} {f : Site R → Job R → Site R}
    (resolved : ∀ job ∈ s.compactor.waiting, (f s job).Tallied) : (s.onJob id f).Tallied := by
  rw [Site.onJob]
  split
  · next job found => exact resolved job (List.mem_of_find?_eq_some found)
  · exact tallied

/-- Calls keep the counts right if merges are reported through jobs and nobody else counts. -/
theorem perform (tallied : s.Tallied) (orderly : s.Orderly) {call : Call R}
    (viaJobs : call.direct = false) (alone : call.counts = false) : (s.perform call).Tallied := by
  cases call with
  | enable =>
    cases enabled : s.compactor.enabled with
    | false =>
      rw [Site.perform, enable_of_off enabled]
      exact then_pass orderly (.switchOn enabled) (tallied.of_same rfl rfl rfl rfl)
    | true =>
      rw [Site.perform, enable_of_on enabled]
      exact tallied
  | disable =>
    cases enabled : s.compactor.enabled with
    | false =>
      rw [Site.perform, disable_of_off enabled]
      exact tallied
    | true => exact tallied.disable enabled
  | flush tables =>
    rw [Site.perform, flush_eq]
    split
    · exact tallied.takeIn tables
    · exact then_pass orderly (.takeIn s tables) (tallied.takeIn tables)
  | evaluate => exact tallied.chain (chain_passUpTo orderly _)
  | setThresholds t => exact tallied.of_same rfl rfl rfl rfl
  | completeJob id outputs =>
    refine tallied.onJob (f := fun s job => s.completeJob job outputs) fun job waits => ?_
    exact then_pass orderly (.settle waits outputs) (tallied.settle orderly waits outputs)
  | failJob id cause =>
    exact tallied.onJob (f := fun s job => s.failJob job cause)
      fun job waits => tallied.fail orderly waits cause
  | dropJob id => exact tallied.onJob fun job waits => tallied.drop orderly waits
  | complete => exact Bool.noConfusion viaJobs
  | giveBack => exact Bool.noConfusion viaJobs
  | setIntake intake => exact tallied.of_same rfl rfl rfl rfl
  | elsewhere ids shelf clock => exact tallied.of_same rfl rfl rfl rfl
  | count => exact Bool.noConfusion alone

end Tallied

/-- A job has been handed over and waits no more. -/
structure Past (id : Nat) (s : Site R) : Prop where
  issued : id < s.compactor.nextJob
  gone : id ∉ s.compactor.waiting.map (·.id)

namespace Past

variable {id : Nat}

private theorem of_fewer_jobs (past : s.Past id)
    (next : t.compactor.nextJob = s.compactor.nextJob)
    (jobs : t.compactor.waiting.Sublist s.compactor.waiting) : t.Past id where
  issued := next ▸ past.issued
  gone waits := past.gone ((jobs.map _).subset waits)

theorem of_compactor (past : s.Past id) (same : t.compactor = s.compactor) : t.Past id :=
  past.of_fewer_jobs (by rw [same]) (by rw [same])

theorem withdraw (past : s.Past id) (other : Nat) : (s.withdraw other).Past id :=
  past.of_fewer_jobs rfl List.filter_sublist

variable [Quantity R]

/-- A job that waits no more never waits again: the next ones get other numbers. -/
theorem act {direct : Prop} (past : s.Past id) (act : Act direct s t) : t.Past id := by
  rcases jobs_act act with ⟨next, -, jobs⟩ | ⟨job, named, next, -, waiting⟩
  · exact past.of_fewer_jobs next jobs
  · constructor
    · rw [next]
      exact Nat.lt_succ_of_lt past.issued
    · rw [waiting, List.map_append, List.mem_append, not_or]
      refine ⟨past.gone, ?_⟩
      intro new
      rw [List.map_singleton, List.mem_singleton, named] at new
      exact absurd new (Nat.ne_of_lt past.issued)

theorem acts {direct : Prop} (past : s.Past id)
    (acts : Relation.ReflTransGen (Act direct) s t) : t.Past id := by
  induction acts with
  | refl => exact past
  | tail _ act ih => exact ih.act act

end Past

theorem past_of_job?_none {id : Nat} (issued : id < s.compactor.nextJob) (none : s.job? id = none) :
    s.Past id where
  issued
  gone waits := by
    obtain ⟨job, waiting, rfl⟩ := List.mem_map.1 waits
    simpa using List.find?_eq_none.1 none job waiting

/-- A job that is resolved does not wait afterwards. -/
theorem past_perform [Quantity R] (orderly : s.Orderly) {call : Call R} {id : Nat}
    (resolves : call.resolves = some id) (issued : id < s.compactor.nextJob) :
    (s.perform call).Past id := by
  have left (job : Job R) (found : s.job? id = some job) :
      id ∉ (s.withdraw job.id).compactor.waiting.map (·.id) := by
    intro waits
    have named : job.id = id := by simpa using List.find?_some found
    obtain ⟨other, kept, same⟩ := List.mem_map.1 waits
    have differ := (List.mem_filter.1 kept).2
    simp [same, named] at differ
  cases found : s.job? id with
  | none =>
    have past := past_of_job?_none issued found
    cases call with
    | completeJob | failJob | dropJob =>
      cases resolves
      rw [perform, onJob, found]
      exact past
    | _ => contradiction
  | some job =>
    have waits : job ∈ s.compactor.waiting := List.mem_of_find?_eq_some found
    cases call with
    | completeJob other outputs =>
      cases resolves
      have act : Act False s (s.settleJob job outputs) := .settle waits outputs
      have settled : (s.settleJob job outputs).Past id := by
        constructor
        · rw [settleJob_compactor]
          exact issued
        · rw [settleJob_compactor]
          exact left job found
      rw [perform, onJob, found]
      have acts : Relation.ReflTransGen (Act False) (s.settleJob job outputs)
          (s.settleJob job outputs).pass.1 := acts_pass (orderly.act act)
      exact settled.acts acts
    | failJob other cause =>
      cases resolves
      rw [perform, onJob, found]
      exact ⟨issued, left job found⟩
    | dropJob other =>
      cases resolves
      rw [perform, onJob, found]
      exact ⟨issued, left job found⟩
    | _ => contradiction

end Site

end TieredCompaction
