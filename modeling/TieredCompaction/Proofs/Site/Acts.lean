import TieredCompaction.Proofs.Site.Effects
import Mathlib.Logic.Relation
/-!
What happens at a site, piece by piece. Chains of passes, and with them all operations, are
sequences of a few kinds of acts, so that what every act keeps, every operation keeps.
-/
namespace TieredCompaction.Site

variable {R : Type}

/-- Live tables and waiting jobs are distinct by ID, and waiting jobs have IDs already given out. -/
structure Orderly (s : Site R) : Prop where
  tables : s.compactor.tables.liveIds.Nodup
  jobs : (s.compactor.waiting.map (·.id)).Nodup
  issued : ∀ job ∈ s.compactor.waiting, job.id < s.compactor.nextJob

/-- Makes the queue deal differently with jobs to come. -/
def setIntake (s : Site R) (intake : Intake) : Site R :=
  { s with compactor.intake := intake }

/-- What is shared with others, after they used it. -/
def elsewhere (s : Site R) (ids : IdSource) (shelf : Shelf R) (clock : Clock) : Site R :=
  { s with ids, shelf, clock }

def count (s : Site R) (counters : Counters) : Site R :=
  { s with counters }

variable [Quantity R]

/-- The acts. Those that pass over the jobs take place only if `direct`. -/
inductive Act (direct : Prop) : Site R → Site R → Prop where
  | switchOn {s} (off : s.compactor.enabled = false) : Act direct s s.switchOn
  | switchOff {s} (on : s.compactor.enabled = true) : Act direct s s.disable.1
  | takeIn (s) (tables : List Table) : Act direct s (s.takeIn tables).1
  | passOver {s} (on : s.compactor.enabled = true) (none : s.selection = none) :
      Act direct s s.passOver
  | handOver {s chosen} (on : s.compactor.enabled = true) (some : s.selection = some chosen) :
      Act direct s (s.handOver chosen)
  | settle {s job} (waits : job ∈ s.compactor.waiting) (outputs : List Table) :
      Act direct s (s.settleJob job outputs)
  | fail {s job} (waits : job ∈ s.compactor.waiting) (cause : Failure) :
      Act direct s (s.failJob job cause)
  | drop {s job} (waits : job ∈ s.compactor.waiting) : Act direct s (s.dropJob job)
  | replace (s) (allowed : direct) (start : Moment) (inputs : List Table) (stop : Moment)
      (outputs : List Table) : Act direct s (s.replace start inputs stop outputs)
  | giveBack (s) (allowed : direct) (inputs : List Table) (cause : Failure) :
      Act direct s (s.giveBack inputs cause)
  | setThresholds (s) (t : Thresholds) : Act direct s (s.setThresholds t)
  | setIntake (s) (intake : Intake) : Act direct s (s.setIntake intake)
  | elsewhere (s) (ids : IdSource) (shelf : Shelf R) (clock : Clock) :
      Act direct s (s.elsewhere ids shelf clock)
  | count (s) (counters : Counters) : Act direct s (s.count counters)

theorem options_act {direct : Prop} {s t : Site R} (act : Act direct s t) :
    t.compactor.options = s.compactor.options := by
  cases act with
  | switchOff on => rw [disable_compactor on]
  | takeIn tables => rw [takeIn_compactor]
  | passOver => rw [passOver_compactor]
  | handOver => rw [handOver_compactor]; rfl
  | settle => rw [settleJob_compactor]
  | replace => rw [replace_compactor]
  | _ => rfl

namespace Orderly

variable {s t : Site R}

omit [Quantity R] in
private theorem of_fewer_jobs (orderly : s.Orderly) (tables : t.compactor.tables.liveIds.Nodup)
    (jobs : t.compactor.waiting.Sublist s.compactor.waiting)
    (next : t.compactor.nextJob = s.compactor.nextJob) : t.Orderly where
  tables
  jobs := orderly.jobs.sublist (jobs.map _)
  issued job waits := next ▸ orderly.issued job (jobs.subset waits)

private theorem handOver (orderly : s.Orderly) (chosen : Selection R) :
    (s.handOver chosen).Orderly := by
  refine ⟨?_, ?_, ?_⟩ <;> rw [handOver_compactor]
  · exact orderly.tables
  · simp only [List.map_append, List.map_cons, List.map_nil]
    refine List.nodup_append.2 ⟨orderly.jobs, List.nodup_singleton _, ?_⟩
    rintro id old _ new rfl
    obtain ⟨job, waits, rfl⟩ := List.mem_map.1 old
    exact absurd (orderly.issued job waits) (by rw [List.mem_singleton.1 new]; exact Nat.lt_irrefl _)
  · intro job waits
    rcases List.mem_append.1 waits with old | new
    · exact Nat.lt_succ_of_lt (orderly.issued job old)
    · rw [List.mem_singleton.1 new]
      exact Nat.lt_succ_self _

theorem act {direct : Prop} (orderly : s.Orderly) (act : Act direct s t) : t.Orderly := by
  cases act with
  | switchOn => exact orderly.of_fewer_jobs orderly.tables (.refl _) rfl
  | switchOff on =>
    have same := disable_compactor on
    exact orderly.of_fewer_jobs (by rw [same]; exact orderly.tables) (by rw [same]) (by rw [same])
  | takeIn tables =>
    have same := s.takeIn_compactor tables
    exact orderly.of_fewer_jobs (by rw [same]; exact TableSet.nodup_receive orderly.tables)
      (by rw [same]) (by rw [same])
  | passOver on none =>
    have same := s.passOver_compactor
    exact orderly.of_fewer_jobs (by rw [same]; exact orderly.tables) (by rw [same]) (by rw [same])
  | handOver on some => exact orderly.handOver _
  | @settle job waits outputs =>
    have same := s.settleJob_compactor job outputs
    exact orderly.of_fewer_jobs
      (by rw [same]; exact TableSet.nodup_receive (TableSet.nodup_removeAll orderly.tables))
      (by rw [same]; exact List.filter_sublist) (by rw [same])
  | fail waits cause => exact orderly.of_fewer_jobs orderly.tables List.filter_sublist rfl
  | drop waits => exact orderly.of_fewer_jobs orderly.tables List.filter_sublist rfl
  | replace allowed start inputs stop outputs =>
    have same := s.replace_compactor start inputs stop outputs
    exact orderly.of_fewer_jobs
      (by rw [same]; exact TableSet.nodup_receive (TableSet.nodup_removeAll orderly.tables))
      (by rw [same]) (by rw [same])
  | giveBack => exact orderly.of_fewer_jobs orderly.tables (.refl _) rfl
  | setThresholds => exact orderly.of_fewer_jobs orderly.tables (.refl _) rfl
  | setIntake => exact orderly.of_fewer_jobs orderly.tables (.refl _) rfl
  | elsewhere => exact orderly.of_fewer_jobs orderly.tables (.refl _) rfl
  | count => exact orderly.of_fewer_jobs orderly.tables (.refl _) rfl

theorem acts {direct : Prop} (orderly : s.Orderly) (acts : Relation.ReflTransGen (Act direct) s t) :
    t.Orderly := by
  induction acts with
  | refl => exact orderly
  | tail _ act ih => exact ih.act act

end Orderly

variable {s : Site R}

omit [Quantity R] in
private theorem withdraw_park {job : Job R} (issued : ∀ other ∈ s.compactor.waiting, other.id < job.id) :
    (s.park job).withdraw job.id = s := by
  have kept : (s.compactor.waiting ++ [job]).filter (·.id != job.id) = s.compactor.waiting := by
    rw [List.filter_append, List.filter_eq_self.2]
    · simp
    · intro other waits
      simpa using Nat.ne_of_lt (issued other waits)
  simp only [withdraw, park, kept]

theorem passUpTo_off (off : s.compactor.enabled = false) (limit : Nat) :
    s.passUpTo limit = (s, false) := by
  cases limit <;> simp [passUpTo, off]

theorem passUpTo_none (on : s.compactor.enabled = true) (none : s.selection = none) (limit : Nat) :
    s.passUpTo (limit + 1) = (s.passOver, false) := by
  simp only [passUpTo, on, if_true, evaluate_of_none none]

/-- The job of a selection is handed over at `t`. Whatever the queue does with it there, it might as
well keep it and do the same right after. -/
structure Submits (s : Site R) (chosen : Selection R) (t : Site R) : Prop where
  evaluate : s.evaluate = (t, some (s.jobOf chosen))
  intake : t.compactor.intake = s.compactor.intake
  tables : t.compactor.tables = (s.handOver chosen).compactor.tables
  keep : t.park (s.jobOf chosen) = s.handOver chosen
  complete (outputs : List Table) :
    t.replace (s.jobOf chosen).startedAt (s.jobOf chosen).tables t.clock.moment outputs =
      (s.handOver chosen).settleJob (s.jobOf chosen) outputs
  fail (cause : Failure) : t.giveBack (s.jobOf chosen).tables cause =
    (s.handOver chosen).failJob (s.jobOf chosen) cause
  drop : t.abandon (s.jobOf chosen) = (s.handOver chosen).dropJob (s.jobOf chosen)
  merge : t.mergeAtOnce (s.jobOf chosen) = (s.handOver chosen).settleMerged (s.jobOf chosen)
  output : (t.mergeOutput (s.jobOf chosen)).1 = ((s.handOver chosen).mergeOutput (s.jobOf chosen)).1

/-- Without the job that is handed over last, the site is the one at which it was handed over. -/
theorem withdraw_handOver (orderly : s.Orderly) (chosen : Selection R) :
    (s.handOver chosen).withdraw (s.jobOf chosen).id =
      ((s.look.take chosen).reportPending.startJob chosen).2 := by
  rw [handOver, withdraw_park]
  rw [reportPending_eq]
  exact orderly.issued

private theorem mergeOutput_park (job : Job R) :
    (s.park job).mergeOutput job = ((s.mergeOutput job).1, (s.mergeOutput job).2.park job) := rfl

theorem submits (orderly : s.Orderly) {chosen : Selection R} (some : s.selection = some chosen) :
    Submits s chosen ((s.look.take chosen).reportPending.startJob chosen).2 where
  evaluate := evaluate_of_some orderly.tables some
  intake := by
    rw [reportPending_eq]
    rfl
  tables := by
    rw [handOver]
    generalize ((s.look.take chosen).reportPending.startJob chosen).2 = t
    rfl
  keep := by rw [handOver]
  complete outputs := by
    rw [settleJob, withdraw_handOver orderly]
    rfl
  fail cause := by rw [failJob, withdraw_handOver orderly]
  drop := by rw [dropJob, withdraw_handOver orderly]
  merge := by
    rw [handOver, settleMerged, settleJob, mergeOutput_park, withdraw_park]
    · rfl
    · rw [reportPending_eq]
      exact orderly.issued
  output := by rw [handOver, mergeOutput_park]

/-- A queue that keeps the job ends the chain. -/
theorem passUpTo_keep (orderly : s.Orderly) (on : s.compactor.enabled = true) {chosen : Selection R}
    (some : s.selection = some chosen) (keep : s.compactor.intake = .keep) (limit : Nat) :
    s.passUpTo (limit + 1) = (s.handOver chosen, true) := by
  have submits := submits orderly some
  simp only [passUpTo, on, if_true, submits.evaluate, submits.intake, keep, submits.keep]

/-- A queue that throws the job away might have kept it to throw it away right after. -/
theorem passUpTo_drop (orderly : s.Orderly) (on : s.compactor.enabled = true) {chosen : Selection R}
    (some : s.selection = some chosen) (drop : s.compactor.intake = .drop) (limit : Nat) :
    s.passUpTo (limit + 1) = ((s.handOver chosen).dropJob (s.jobOf chosen), true) := by
  have submits := submits orderly some
  simp only [passUpTo, on, if_true, submits.evaluate, submits.intake, drop, submits.drop]

/-- A queue that merges the job might have kept it to merge it right after. -/
theorem passUpTo_merge (orderly : s.Orderly) (on : s.compactor.enabled = true) {chosen : Selection R}
    (some : s.selection = some chosen) (merge : s.compactor.intake = .merge) (limit : Nat) :
    s.passUpTo (limit + 1) =
      ((((s.handOver chosen).settleMerged (s.jobOf chosen)).passUpTo limit).1, true) := by
  have submits := submits orderly some
  simp only [passUpTo, on, if_true, submits.evaluate, submits.intake, merge, submits.merge]

end TieredCompaction.Site
