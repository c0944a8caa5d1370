import TieredCompaction.Workers
import TieredCompaction.Proofs.Site.Tally
/-!
Workers at a queue, as a system of moves: those who hold the compactor call it, and each worker
receives a job, merges it and resolves it, in any interleaving. Every job is merged once and
resolved once, and no worker leaves before all jobs are resolved that it might be needed for.
-/
namespace TieredCompaction

/-- Whether a call is made by those who hold a compactor: neither by workers, who have the jobs, nor
by the queue. -/
def Call.asked {R : Type} : Call R → Bool
  | setIntake _ => false
  | call => call.resolves.isNone

namespace Site

variable {R : Type} {s t u : Site R}

/-- Some jobs have been handed over, and wait. -/
structure Grown (s : Site R) (new : List (Job R)) (t : Site R) : Prop where
  submitted : t.compactor.submitted = s.compactor.submitted ++ new
  waiting : t.compactor.waiting = s.compactor.waiting ++ new
  intake : t.compactor.intake = s.compactor.intake

namespace Grown

theorem of_compactor (same : t.compactor = s.compactor) : Grown s [] t where
  submitted := by rw [same, List.append_nil]
  waiting := by rw [same, List.append_nil]
  intake := by rw [same]

theorem of_same (submitted : t.compactor.submitted = s.compactor.submitted)
    (waiting : t.compactor.waiting = s.compactor.waiting)
    (intake : t.compactor.intake = s.compactor.intake) : Grown s [] t where
  submitted := by rw [submitted, List.append_nil]
  waiting := by rw [waiting, List.append_nil]
  intake

end Grown

variable [Quantity R]

/-- With a queue that keeps jobs, a chain of passes does no more than handing over a job. -/
theorem grown_pass (orderly : s.Orderly) (keep : s.compactor.intake = .keep) :
    ∃ new, Grown s new s.pass.1 := by
  have chain : Chain (s.tableCount + 1) s s.pass.1 := chain_passUpTo orderly _
  generalize s.pass.1 = t at chain ⊢
  cases chain with
  | off => exact ⟨[], .of_compactor rfl⟩
  | idle =>
    have same := s.passOver_compactor
    exact ⟨[], .of_same (by rw [same]) (by rw [same]) (by rw [same])⟩
  | @keep _ _ chosen =>
    refine ⟨[s.jobOf chosen], ?_, ?_, ?_⟩ <;> rw [handOver_compactor]
    rfl
  | drop _ _ _ drop => exact absurd (keep.symm.trans drop) Intake.noConfusion
  | merge _ _ _ merge => exact absurd (keep.symm.trans merge) Intake.noConfusion

/-- An act that hands nothing over and resolves nothing, and the evaluation that follows. -/
private theorem grown_then_pass (orderly : s.Orderly) (keep : s.compactor.intake = .keep)
    (act : Act True s t) (grown : Grown s [] t) : ∃ new, Grown s new t.pass.1 := by
  obtain ⟨new, later⟩ := grown_pass (orderly.act act) (grown.intake.trans keep)
  have submitted := grown.submitted
  have waiting := grown.waiting
  rw [List.append_nil] at submitted waiting
  refine ⟨new, ?_, ?_, ?_⟩
  · rw [later.submitted, submitted]
  · rw [later.waiting, waiting]
  · rw [later.intake, grown.intake]

/-- A call by those who hold the compactor resolves no job. -/
theorem grown_perform (orderly : s.Orderly) (keep : s.compactor.intake = .keep) {call : Call R}
    (asked : call.asked = true) : ∃ new, Grown s new (s.perform call) := by
  cases call with
  | enable =>
    cases enabled : s.compactor.enabled with
    | false =>
      rw [perform, enable_of_off enabled]
      exact grown_then_pass orderly keep (.switchOn enabled) (.of_same rfl rfl rfl)
    | true =>
      rw [perform, enable_of_on enabled]
      exact ⟨[], .of_compactor rfl⟩
  | disable =>
    cases enabled : s.compactor.enabled with
    | false =>
      rw [perform, disable_of_off enabled]
      exact ⟨[], .of_compactor rfl⟩
    | true =>
      have same := disable_compactor enabled
      exact ⟨[], .of_same (by rw [perform, same]) (by rw [perform, same]) (by rw [perform, same])⟩
  | flush tables =>
    have same := s.takeIn_compactor tables
    have taken : Grown s [] (s.takeIn tables).1 :=
      .of_same (by rw [same]) (by rw [same]) (by rw [same])
    rw [perform, flush_eq]
    split
    · exact ⟨[], taken⟩
    · exact grown_then_pass orderly keep (.takeIn s tables) taken
  | evaluate => exact grown_pass orderly keep
  | completeJob | failJob | dropJob | setIntake => contradiction
  | complete start inputs stop outputs =>
    have same := s.replace_compactor start inputs stop outputs
    have replaced : Grown s [] (s.replace start inputs stop outputs) :=
      .of_same (by rw [same]) (by rw [same]) (by rw [same])
    exact grown_then_pass orderly keep (.replace s trivial start inputs stop outputs) replaced
  | _ => exact ⟨[], .of_same rfl rfl rfl⟩

/-- A job has been resolved, and some others have been handed over. -/
structure Relieved (s : Site R) (job : Job R) (new : List (Job R)) (t : Site R) : Prop where
  submitted : t.compactor.submitted = s.compactor.submitted ++ new
  waiting : t.compactor.waiting = s.compactor.waiting.filter (·.id != job.id) ++ new
  intake : t.compactor.intake = s.compactor.intake

theorem relieved_completeJob (orderly : s.Orderly) (keep : s.compactor.intake = .keep)
    {job : Job R} (waits : job ∈ s.compactor.waiting) (outputs : List Table) :
    ∃ new, Relieved s job new (s.completeJob job outputs) := by
  have same := s.settleJob_compactor job outputs
  have act : Act True s (s.settleJob job outputs) := .settle waits outputs
  obtain ⟨new, later⟩ := grown_pass (orderly.act act) (by rw [same]; exact keep)
  refine ⟨new, ?_, ?_, ?_⟩
  · exact later.submitted.trans (by rw [same])
  · exact later.waiting.trans (by rw [same])
  · exact later.intake.trans (by rw [same])

omit [Quantity R] in
/-- A job that comes to nothing, or comes too late, is the only one that leaves the queue. -/
theorem relieved_of_compactor {job : Job R}
    (submitted : t.compactor.submitted = s.compactor.submitted)
    (waiting : t.compactor.waiting = s.compactor.waiting.filter (·.id != job.id))
    (intake : t.compactor.intake = s.compactor.intake) : Relieved s job [] t where
  submitted := by rw [submitted, List.append_nil]
  waiting := by rw [waiting, List.append_nil]
  intake

end Site

/-- What a worker did with a job. -/
inductive Doing where
  | received
  | merged (result : Except Failure (List Table))
  | completed (outputs : List Table)
  | failed (cause : Failure)

/-- How a job is resolved whose merge gave a result. -/
def Doing.resolved : Except Failure (List Table) → Doing
  | .ok outputs => completed outputs
  | .error cause => failed cause

/-- Something done by a worker, with the ID of the job. -/
structure Deed where
  worker : Nat
  job : Nat
  doing : Doing

/-- All that is done with a job whose merge gave a result, from first to last. -/
def Deed.course (worker job : Nat) (result : Except Failure (List Table)) : List Deed :=
  [⟨worker, job, .received⟩, ⟨worker, job, .merged result⟩, ⟨worker, job, .resolved result⟩]

/-- What can happen to workers and to the compactor whose jobs they merge. -/
inductive Move (R : Type) where
  /-- A call by those who hold the compactor. -/
  | call (call : Call R)
  /-- Time passes, and others draw IDs, read tables and make new ones. -/
  | elsewhere (ids : IdSource) (shelf : Shelf R) (clock : Clock)
  | receive (worker : Nat)
  /-- A merge ends, for which IDs were drawn and tables made. -/
  | merge (worker : Nat) (result : Except Failure (List Table)) (ids : IdSource) (shelf : Shelf R)
  | resolve (worker : Nat)
  | leave (worker : Nat)
  /-- The compactor goes away. -/
  | release
  /-- The queue is closed, once the compactor is gone. -/
  | shut

def MergeResult.ofExcept : Except Failure (List Table) → MergeResult
  | .ok outputs => merged outputs
  | .error cause => failed cause

/-- The job that a worker has. -/
def Worker.job? {R : Type} : Worker R → Option (Job R)
  | holding job | ended job _ => some job
  | _ => none

namespace Workers

variable {R : Type}

/-- What a move does with a job. -/
def deed? (w : Workers R) : Move R → Option Deed
  | .receive worker =>
    match w.workers[worker]?, w.queue with
    | some .idle, job :: _ => some { worker, job := job.id, doing := .received }
    | _, _ => none
  | .merge worker result _ _ =>
    match w.workers[worker]? with
    | some (.holding job) => some { worker, job := job.id, doing := .merged result }
    | _ => none
  | .resolve worker =>
    match w.workers[worker]? with
    | some (.ended job result) => some { worker, job := job.id, doing := .resolved result }
    | _ => none
  | _ => none

def Holds (w : Workers R) (i : Nat) (job : Job R) : Prop :=
  (w.workers[i]?).bind Worker.job? = some job

/-- A job is in one place at most: in the queue or with one worker. It waits as long as it is in
one. -/
structure Placed (w : Workers R) (job : Job R) : Prop where
  one : ∀ i j, w.Holds i job → w.Holds j job → i = j
  either : ∀ i, w.Holds i job → job ∉ w.queue
  waiting : job ∈ w.site.compactor.waiting ↔ job ∈ w.queue ∨ ∃ i, w.Holds i job

/-- How far a job has come, with all that was done with it: it is queued, held by a worker that has
received it, held by a worker that has merged it, or resolved the way its merge ended. -/
inductive Stage (w : Workers R) (job : Job R) : List Deed → Prop where
  | queued (waits : job ∈ w.queue) : Stage w job []
  | received (i : Nat) (holds : w.workers[i]? = some (.holding job)) :
      Stage w job [⟨i, job.id, .received⟩]
  | merged (i : Nat) (result : Except Failure (List Table))
      (holds : w.workers[i]? = some (.ended job result)) :
      Stage w job [⟨i, job.id, .received⟩, ⟨i, job.id, .merged result⟩]
  | resolved (i : Nat) (result : Except Failure (List Table))
      (gone : job ∉ w.site.compactor.waiting) : Stage w job (Deed.course i job.id result)

/-- The deeds with one job. -/
def deedsWith (id : Nat) (deeds : List Deed) : List Deed :=
  deeds.filter (·.job == id)

/-- What holds of workers whose merges never break down. -/
structure Staffed (w : Workers R) : Prop where
  orderly : w.site.Orderly
  numbered : w.site.Numbered
  keep : w.site.compactor.intake = .keep
  received : w.received ≤ w.site.compactor.submitted.length
  placed : ∀ job, w.Placed job
  leaving : .gone ∈ w.workers → w.closed = true ∧ w.queue = []
  well : .lost ∉ w.workers
  shut : w.closed = true → w.held = false

variable {w v : Workers R} {t : Site R} {i : Nat} {job : Job R}

/-- What a move can be: something at the compactor, or one thing that one worker does. -/
inductive Moved (w : Workers R) : List Deed → Workers R → Prop where
  | site {t : Site R} {new : List (Job R)} {held closed : Bool} (orderly : t.Orderly)
      (numbered : t.Numbered) (grown : w.site.Grown new t) (silent : w.closed = true → new = [])
      (closes : w.closed = true → closed = true) (shut : closed = true → held = false) :
      Moved w [] { w with site := t, held, closed }
  | receive {i : Nat} {job : Job R} {rest : List (Job R)} (free : w.workers[i]? = some .idle)
      (first : w.queue = job :: rest) :
      Moved w [⟨i, job.id, .received⟩]
        { w.setWorker i (.holding job) with received := w.received + 1 }
  | merge {i : Nat} {job : Job R} (result : Except Failure (List Table))
      (holds : w.workers[i]? = some (.holding job)) {t : Site R}
      (same : t.compactor = w.site.compactor) :
      Moved w [⟨i, job.id, .merged result⟩] { w.setWorker i (.ended job result) with site := t }
  | resolve {i : Nat} {job : Job R} {result : Except Failure (List Table)}
      (holds : w.workers[i]? = some (.ended job result)) {t : Site R} {new : List (Job R)}
      (orderly : t.Orderly) (numbered : t.Numbered) (relieved : w.site.Relieved job new t)
      (silent : w.closed = true → new = []) :
      Moved w [⟨i, job.id, .resolved result⟩] { w.setWorker i .idle with site := t }
  | leave {i : Nat} (free : w.workers[i]? = some .idle) (none : w.queue = [])
      (closed : w.closed = true) : Moved w [] (w.setWorker i .gone)

theorem holds_setWorker_ne {worker : Worker R} {j : Nat} (other : j ≠ i) :
    (w.setWorker i worker).Holds j job ↔ w.Holds j job := by
  rw [Holds, Holds, setWorker, List.getElem?_set_ne other.symm]

theorem holds_setWorker {worker : Worker R} (there : i < w.workers.length) :
    (w.setWorker i worker).Holds i job ↔ worker.job? = some job := by
  rw [Holds, setWorker, List.getElem?_set_self there, Option.bind_some]

theorem mem_of_mem_setWorker {worker other : Worker R}
    (member : other ∈ (w.setWorker i worker).workers) (differ : other ≠ worker) :
    other ∈ w.workers :=
  (List.mem_or_eq_of_mem_set member).resolve_right differ

theorem not_holds_of_free (free : w.workers[i]? = some .idle) : ¬ w.Holds i job := by
  simp [Holds, free, Worker.job?]

theorem Holds.of_holding (holds : w.workers[i]? = some (.holding job)) : w.Holds i job := by
  simp [Holds, holds, Worker.job?]

theorem Holds.of_ended {result : Except Failure (List Table)}
    (holds : w.workers[i]? = some (.ended job result)) : w.Holds i job := by
  simp [Holds, holds, Worker.job?]

/-- Whoever receives a job takes the first one from the queue. -/
theorem queue_received {rest : List (Job R)} (first : w.queue = job :: rest)
    (received : v.received = w.received + 1) (same : v.site = w.site) : v.queue = rest := by
  rw [queue, received, same, ← List.tail_drop, ← queue, first, List.tail_cons]

namespace Staffed

theorem submitted_nodup (staffed : w.Staffed) : w.site.compactor.submitted.Nodup := by
  refine List.Nodup.of_map (·.id) ?_
  rw [staffed.numbered.ids]
  exact List.nodup_range

theorem queue_nodup (staffed : w.Staffed) : w.queue.Nodup :=
  staffed.submitted_nodup.sublist (List.drop_sublist _ _)

/-- Jobs that are handed over queue up behind those that are there. -/
theorem queue_grown (staffed : w.Staffed) {new : List (Job R)} (received : v.received = w.received)
    (submitted : v.site.compactor.submitted = w.site.compactor.submitted ++ new) :
    v.queue = w.queue ++ new := by
  rw [queue, received, submitted, List.drop_append_of_le_length staffed.received]
  rfl

theorem submitted_of_holds (staffed : w.Staffed) (holds : w.Holds i job) :
    job ∈ w.site.compactor.submitted :=
  staffed.numbered.known.subset ((staffed.placed job).waiting.2 (.inr ⟨i, holds⟩))

theorem waiting_of_queue (staffed : w.Staffed) (waits : job ∈ w.queue) :
    job ∈ w.site.compactor.waiting :=
  (staffed.placed job).waiting.2 (.inl waits)

/-- Jobs that wait under one ID are one job. -/
theorem eq_of_id_eq (staffed : w.Staffed) {other : Job R}
    (waits : job ∈ w.site.compactor.waiting) (too : other ∈ w.site.compactor.waiting)
    (same : other.id = job.id) : other = job :=
  List.inj_on_of_nodup_map staffed.orderly.jobs too waits same

end Staffed

theorem new_apart {s : Site R} {new : List (Job R)} (numbered : t.Numbered)
    (submitted : t.compactor.submitted = s.compactor.submitted ++ new) :
    ∀ old ∈ s.compactor.submitted, ∀ job ∈ new, old.id ≠ job.id := by
  have distinct : (t.compactor.submitted.map (·.id)).Nodup := by
    rw [numbered.ids]
    exact List.nodup_range
  rw [submitted, List.map_append, List.nodup_append] at distinct
  intro old known job late
  exact distinct.2.2 _ (List.mem_map_of_mem known) _ (List.mem_map_of_mem late)

section Placing

variable {held closed : Bool} {new : List (Job R)} {other : Job R}

/-- Jobs that come go to the queue, and those that are there stay where they are. -/
theorem placed_site (staffed : w.Staffed) (numbered : t.Numbered) (grown : w.site.Grown new t)
    (other : Job R) : Placed { w with site := t, held, closed } other := by
  have placed := staffed.placed other
  have queue : Workers.queue { w with site := t, held, closed } = w.queue ++ new :=
    staffed.queue_grown rfl grown.submitted
  constructor
  · exact placed.one
  · intro i holds waits
    rw [queue, List.mem_append] at waits
    rcases waits with old | late
    · exact placed.either i holds old
    · have known := staffed.submitted_of_holds holds
      exact new_apart numbered grown.submitted other known other late rfl
  · rw [queue, grown.waiting, List.mem_append, List.mem_append, placed.waiting, or_right_comm]
    rfl

theorem placed_receive (staffed : w.Staffed) {rest : List (Job R)}
    (free : w.workers[i]? = some .idle) (first : w.queue = job :: rest) (other : Job R) :
    Placed { w.setWorker i (.holding job) with received := w.received + 1 } other := by
  have there : i < w.workers.length := (List.getElem?_eq_some_iff.1 free).1
  have placed := staffed.placed other
  have queue : Workers.queue { w.setWorker i (.holding job) with received := w.received + 1 } =
      rest :=
    queue_received first rfl rfl
  have absent : job ∉ rest := by
    have distinct := staffed.queue_nodup
    rw [first] at distinct
    exact (List.nodup_cons.1 distinct).1
  have mine : w.Placed job := staffed.placed job
  have queued : job ∈ w.queue := first ▸ List.mem_cons_self
  have own {a : Job R} : (w.setWorker i (.holding job)).Holds i a ↔ job = a := by
    rw [holds_setWorker there, Worker.job?, Option.some.injEq]
  -- nobody but worker `i` has what was first in the queue
  have single {j : Nat} (holds : (w.setWorker i (.holding job)).Holds j job) : j = i := by
    by_cases same : j = i
    · exact same
    · exact absurd queued (mine.either j ((holds_setWorker_ne same).1 holds))
  constructor
  · intro a b left right
    by_cases same : job = other
    · subst same
      rw [single left, single right]
    · have apart {j : Nat} (holds : (w.setWorker i (.holding job)).Holds j other) : j ≠ i := by
        rintro rfl
        exact same (own.1 holds)
      exact placed.one a b ((holds_setWorker_ne (apart left)).1 left)
        ((holds_setWorker_ne (apart right)).1 right)
  · intro j holds waits
    rw [queue] at waits
    by_cases same : j = i
    · subst same
      exact absent (own.1 holds ▸ waits)
    · have queued : other ∈ w.queue := first ▸ List.mem_cons_of_mem _ waits
      exact placed.either j ((holds_setWorker_ne same).1 holds) queued
  · rw [queue]
    refine placed.waiting.trans ?_
    rw [first, List.mem_cons]
    constructor
    · rintro ((rfl | waits) | ⟨j, holds⟩)
      · exact .inr ⟨i, own.2 rfl⟩
      · exact .inl waits
      · have apart : j ≠ i := by
          rintro rfl
          exact not_holds_of_free free holds
        exact .inr ⟨j, (holds_setWorker_ne apart).2 holds⟩
    · rintro (waits | ⟨j, holds⟩)
      · exact .inl (.inr waits)
      · by_cases same : j = i
        · subst same
          exact .inl (.inl (own.1 holds).symm)
        · exact .inr ⟨j, (holds_setWorker_ne same).1 holds⟩

/-- Who has what changes for nobody if a worker goes on with what it has. -/
theorem holds_setWorker_of_same {worker next : Worker R} (holds : w.workers[i]? = some worker)
    (same : next.job? = worker.job?) (j : Nat) (other : Job R) :
    (w.setWorker i next).Holds j other ↔ w.Holds j other := by
  have there : i < w.workers.length := (List.getElem?_eq_some_iff.1 holds).1
  by_cases self : j = i
  · subst self
    rw [holds_setWorker there, same, Holds, holds, Option.bind_some]
  · exact holds_setWorker_ne self

theorem placed_of_same (staffed : w.Staffed) {worker next : Worker R}
    (holds : w.workers[i]? = some worker) (same : next.job? = worker.job?)
    (compactor : t.compactor = w.site.compactor) (other : Job R) :
    Placed { w.setWorker i next with site := t } other := by
  have placed := staffed.placed other
  have queue : Workers.queue { w.setWorker i next with site := t } = w.queue := by
    rw [Workers.queue, compactor]
    rfl
  have held := holds_setWorker_of_same holds same
  constructor
  · intro a b left right
    exact placed.one a b ((held a other).1 left) ((held b other).1 right)
  · intro j taken
    rw [queue]
    exact placed.either j ((held j other).1 taken)
  · rw [queue, compactor, placed.waiting]
    exact or_congr_right (exists_congr fun j => (held j other).symm)

theorem placed_resolve (staffed : w.Staffed) {result : Except Failure (List Table)}
    (holds : w.workers[i]? = some (.ended job result)) (numbered : t.Numbered)
    (relieved : w.site.Relieved job new t) (other : Job R) :
    Placed { w.setWorker i .idle with site := t } other := by
  have there : i < w.workers.length := (List.getElem?_eq_some_iff.1 holds).1
  have placed := staffed.placed other
  have mine := staffed.placed job
  have had : w.Holds i job := .of_ended holds
  have queue : Workers.queue { w.setWorker i .idle with site := t } = w.queue ++ new :=
    staffed.queue_grown rfl relieved.submitted
  have none (other : Job R) : ¬ (w.setWorker i .idle).Holds i other := by
    rw [holds_setWorker there]
    exact Option.some_ne_none other ∘ Eq.symm
  have apart {j : Nat} (taken : (w.setWorker i .idle).Holds j other) : j ≠ i := by
    rintro rfl
    exact none other taken
  have before {j : Nat} (taken : (w.setWorker i .idle).Holds j other) : w.Holds j other :=
    (holds_setWorker_ne (apart taken)).1 taken
  constructor
  · intro a b left right
    exact placed.one a b (before left) (before right)
  · intro j taken waits
    rw [queue, List.mem_append] at waits
    rcases waits with old | late
    · exact placed.either j (before taken) old
    · exact new_apart numbered relieved.submitted other (staffed.submitted_of_holds (before taken))
        other late rfl
  · rw [queue, relieved.waiting, List.mem_append, List.mem_append, List.mem_filter, bne_iff_ne]
    constructor
    · rintro (⟨waits, differ⟩ | late)
      · rcases placed.waiting.1 waits with old | ⟨j, taken⟩
        · exact .inl (.inl old)
        · have elsewhere : j ≠ i := by
            rintro rfl
            exact differ (congrArg Job.id (Option.some.inj (taken.symm.trans had)))
          exact .inr ⟨j, (holds_setWorker_ne elsewhere).2 taken⟩
      · exact .inl (.inr late)
    · have differ (waits : other ∈ w.site.compactor.waiting) (not : other ≠ job) :
          other.id ≠ job.id :=
        fun same => not (staffed.eq_of_id_eq (mine.waiting.2 (.inr ⟨i, had⟩)) waits same)
      rintro ((old | late) | ⟨j, taken⟩)
      · have waits := staffed.waiting_of_queue old
        refine .inl ⟨waits, differ waits ?_⟩
        rintro rfl
        exact mine.either i had old
      · exact .inr late
      · have waits := placed.waiting.2 (.inr ⟨j, before taken⟩)
        refine .inl ⟨waits, differ waits ?_⟩
        rintro rfl
        exact apart taken (mine.one j i (before taken) had)

end Placing

theorem Moved.length_workers {deeds : List Deed} (moved : Moved w deeds v) :
    v.workers.length = w.workers.length := by
  cases moved with
  | site => rfl
  | _ => exact List.length_set

/-- Whatever is done, workers stay in order. -/
theorem Staffed.moved (staffed : w.Staffed) {deeds : List Deed} (moved : Moved w deeds v) :
    v.Staffed := by
  cases moved with
  | @site t new held closed orderly numbered grown silent closes shut =>
    refine ⟨orderly, numbered, grown.intake.trans staffed.keep, ?_,
      placed_site staffed numbered grown, ?_, staffed.well, shut⟩
    · rw [grown.submitted, List.length_append]
      exact Nat.le_add_right_of_le staffed.received
    · intro gone
      have later : Workers.queue { w with site := t, held, closed } = w.queue ++ new :=
        staffed.queue_grown rfl grown.submitted
      obtain ⟨before, none⟩ := staffed.leaving gone
      refine ⟨closes before, ?_⟩
      rw [later, none, silent before, List.append_nil]
  | @receive i job rest free first =>
    refine ⟨staffed.orderly, staffed.numbered, staffed.keep, ?_,
      placed_receive staffed free first, ?_, ?_, staffed.shut⟩
    · have some : 0 < w.queue.length := by simp [first]
      rw [queue, List.length_drop] at some
      exact Nat.lt_of_sub_pos some
    · intro gone
      obtain ⟨_, none⟩ := staffed.leaving (mem_of_mem_setWorker gone nofun)
      exact absurd (first.symm.trans none) (List.cons_ne_nil job rest)
    · intro lost
      exact staffed.well (mem_of_mem_setWorker lost nofun)
  | @merge i job result holds t same =>
    refine ⟨staffed.orderly.of_compactor same, staffed.numbered.of_compactor same,
      (congrArg Compactor.intake same).trans staffed.keep, ?_,
      placed_of_same staffed holds rfl same, ?_, ?_, staffed.shut⟩
    · rw [same]
      exact staffed.received
    · intro gone
      obtain ⟨closed, none⟩ := staffed.leaving (mem_of_mem_setWorker gone nofun)
      refine ⟨closed, ?_⟩
      rw [queue, same]
      exact none
    · intro lost
      exact staffed.well (mem_of_mem_setWorker lost nofun)
  | @resolve i job result holds t new orderly numbered relieved silent =>
    refine ⟨orderly, numbered, relieved.intake.trans staffed.keep, ?_,
      placed_resolve staffed holds numbered relieved, ?_, ?_, staffed.shut⟩
    · rw [relieved.submitted, List.length_append]
      exact Nat.le_add_right_of_le staffed.received
    · intro gone
      have later : Workers.queue { w.setWorker i .idle with site := t } = w.queue ++ new :=
        staffed.queue_grown rfl relieved.submitted
      obtain ⟨closed, none⟩ := staffed.leaving (mem_of_mem_setWorker gone nofun)
      refine ⟨closed, ?_⟩
      rw [later, none, silent closed, List.append_nil]
    · intro lost
      exact staffed.well (mem_of_mem_setWorker lost nofun)
  | @leave i free none closed =>
    refine ⟨staffed.orderly, staffed.numbered, staffed.keep, staffed.received,
      placed_of_same staffed free rfl rfl, ?_, ?_, staffed.shut⟩
    · exact fun _ => ⟨closed, none⟩
    · intro lost
      exact staffed.well (mem_of_mem_setWorker lost nofun)

theorem staffed_start (s : Site R) (o : Opening R) (keep : o.intake = .keep) (count : Nat) :
    (start (s.opened o) count).Staffed where
  orderly := s.orderly_opened o
  numbered := s.numbered_opened o
  keep := keep
  received := Nat.le_refl _
  placed job := by
    have none (i : Nat) : ¬ (start (s.opened o) count).Holds i job := by
      rw [Holds, start, List.getElem?_replicate]
      split <;> exact Bool.noConfusion ∘ congrArg Option.isSome
    refine ⟨fun i _ holds => absurd holds (none i), fun i holds => absurd holds (none i), ?_⟩
    constructor
    · exact fun waits => absurd waits List.not_mem_nil
    · rintro (waits | ⟨i, holds⟩)
      · rw [queue, start, List.drop_length] at waits
        exact absurd waits List.not_mem_nil
      · exact absurd holds (none i)
  leaving gone := by
    have idle := List.eq_of_mem_replicate gone
    contradiction
  well lost := by
    have idle := List.eq_of_mem_replicate lost
    contradiction
  shut closed := Bool.noConfusion closed

section Stages

variable {ds : List Deed}

/-- What is left of a stage when nothing is done with the job. -/
theorem Stage.keep (stage : Stage w job ds)
    (workers : ∀ i, w.Holds i job → v.workers[i]? = w.workers[i]?)
    (queue : job ∈ w.queue → job ∈ v.queue)
    (waiting : job ∈ v.site.compactor.waiting → job ∈ w.site.compactor.waiting) :
    Stage v job ds := by
  cases stage with
  | queued waits => exact .queued (queue waits)
  | received i holds => exact .received i ((workers i (.of_holding holds)).trans holds)
  | merged i result holds => exact .merged i result ((workers i (.of_ended holds)).trans holds)
  | resolved i result gone => exact .resolved i result fun waits => gone (waiting waits)

/-- Nothing has been done with a job in the queue. -/
theorem Stage.of_queue (stage : Stage w job ds) (placed : w.Placed job) (waits : job ∈ w.queue) :
    ds = [] := by
  cases stage with
  | queued => rfl
  | received i holds => exact absurd waits (placed.either i (.of_holding holds))
  | merged i result holds => exact absurd waits (placed.either i (.of_ended holds))
  | resolved i result gone => exact absurd (placed.waiting.2 (.inl waits)) gone

theorem Stage.of_holding (stage : Stage w job ds) (placed : w.Placed job)
    (holds : w.workers[i]? = some (.holding job)) : ds = [⟨i, job.id, .received⟩] := by
  cases stage with
  | queued waits => exact absurd waits (placed.either i (.of_holding holds))
  | received j other => rw [placed.one i j (.of_holding holds) (.of_holding other)]
  | merged j result other =>
    rw [placed.one i j (.of_holding holds) (.of_ended other), other] at holds
    cases holds
  | resolved j result gone => exact absurd (placed.waiting.2 (.inr ⟨i, .of_holding holds⟩)) gone

theorem Stage.of_ended (stage : Stage w job ds) (placed : w.Placed job)
    {result : Except Failure (List Table)} (holds : w.workers[i]? = some (.ended job result)) :
    ds = [⟨i, job.id, .received⟩, ⟨i, job.id, .merged result⟩] := by
  cases stage with
  | queued waits => exact absurd waits (placed.either i (.of_ended holds))
  | received j other =>
    rw [placed.one i j (.of_ended holds) (.of_holding other), other] at holds
    cases holds
  | merged j same other =>
    have worker := placed.one i j (.of_ended holds) (.of_ended other)
    rw [worker, other] at holds
    cases holds
    rw [worker]
  | resolved j result gone => exact absurd (placed.waiting.2 (.inr ⟨i, .of_ended holds⟩)) gone

theorem deedsWith_nil (id : Nat) : deedsWith id [] = [] := rfl

theorem deedsWith_append (id : Nat) (before after : List Deed) :
    deedsWith id (before ++ after) = deedsWith id before ++ deedsWith id after :=
  List.filter_append _ _

/-- All that was done was done with jobs handed over, and tells how far each of them has come. -/
structure Told (w : Workers R) (deeds : List Deed) : Prop where
  known : ∀ d ∈ deeds, ∃ job ∈ w.site.compactor.submitted, job.id = d.job
  stages : ∀ job ∈ w.site.compactor.submitted, Stage w job (deedsWith job.id deeds)

/-- Jobs go on from where they are, and jobs that come are queued. -/
private theorem Told.extend (told : w.Told ds) (numbered : v.site.Numbered) {new : List (Job R)}
    (submitted : v.site.compactor.submitted = w.site.compactor.submitted ++ new)
    (late : ∀ job ∈ new, job ∈ v.queue) {more : List Deed}
    (known : ∀ d ∈ more, ∃ job ∈ w.site.compactor.submitted, job.id = d.job)
    (goes : ∀ job ∈ w.site.compactor.submitted, Stage w job (deedsWith job.id ds) →
      Stage v job (deedsWith job.id ds ++ deedsWith job.id more)) : v.Told (ds ++ more) := by
  have all : ∀ d ∈ ds ++ more, ∃ job ∈ w.site.compactor.submitted, job.id = d.job :=
    List.forall_mem_append.2 ⟨told.known, known⟩
  constructor
  · intro d done
    obtain ⟨job, old, same⟩ := all d done
    rw [submitted]
    exact ⟨job, List.mem_append_left _ old, same⟩
  · intro job handed
    rw [submitted, List.mem_append] at handed
    rcases handed with old | new
    · rw [deedsWith_append]
      exact goes job old (told.stages job old)
    · have nothing : deedsWith job.id (ds ++ more) = [] := by
        refine List.filter_eq_nil_iff.2 fun d done same => ?_
        obtain ⟨before, old, named⟩ := all d done
        exact new_apart numbered submitted before old job new (named.trans (beq_iff_eq.1 same))
      rw [nothing]
      exact .queued (late job new)

/-- A worker does something with its job, and nobody else's job is touched. -/
private theorem Told.extend_with (told : w.Told ds) (staffed : w.Staffed) (after : v.Staffed)
    {new : List (Job R)}
    (submitted : v.site.compactor.submitted = w.site.compactor.submitted ++ new)
    (late : ∀ job ∈ new, job ∈ v.queue) (handed : job ∈ w.site.compactor.submitted)
    (worker : Nat) (doing : Doing)
    (mine : Stage w job (deedsWith job.id ds) →
      Stage v job (deedsWith job.id ds ++ [⟨worker, job.id, doing⟩]))
    (others : ∀ other ∈ w.site.compactor.submitted, other ≠ job → ∀ ds, Stage w other ds →
      Stage v other ds) : v.Told (ds ++ [⟨worker, job.id, doing⟩]) := by
  refine told.extend after.numbered submitted late ?_ fun other too stage => ?_
  · intro d done
    rw [List.mem_singleton.1 done]
    exact ⟨job, handed, rfl⟩
  · by_cases same : other = job
    · subst same
      have own : deedsWith other.id [⟨worker, other.id, doing⟩] = [⟨worker, other.id, doing⟩] := by
        simp [deedsWith]
      rw [own]
      exact mine stage
    · have distinct : (w.site.compactor.submitted.map (·.id)).Nodup := by
        rw [staffed.numbered.ids]
        exact List.nodup_range
      have differ : job.id ≠ other.id :=
        fun equal => same (List.inj_on_of_nodup_map distinct too handed equal.symm)
      have none : deedsWith other.id [⟨worker, job.id, doing⟩] = [] := by
        simp [deedsWith, differ]
      rw [none, List.append_nil]
      exact others other too same _ stage

theorem setWorker_of_holds {worker next : Worker R} {other : Job R} {j : Nat}
    (there : w.workers[i]? = some worker) (apart : worker.job? ≠ some other)
    (holds : w.Holds j other) : (w.setWorker i next).workers[j]? = w.workers[j]? := by
  refine List.getElem?_set_ne ?_
  rintro rfl
  rw [Holds, there, Option.bind_some] at holds
  exact apart holds

theorem Told.moved (told : w.Told ds) (staffed : w.Staffed) {more : List Deed}
    (moved : Moved w more v) : v.Told (ds ++ more) := by
  have after := staffed.moved moved
  cases moved with
  | @site t new held closed orderly numbered grown silent closes shut =>
    have queue : Workers.queue { w with site := t, held, closed } = w.queue ++ new :=
      staffed.queue_grown rfl grown.submitted
    refine told.extend numbered grown.submitted ?_ (List.forall_mem_nil _) fun job old stage => ?_
    · intro job late
      rw [queue]
      exact List.mem_append_right _ late
    · rw [deedsWith_nil, List.append_nil]
      refine stage.keep (fun _ _ => rfl) (fun waits => ?_) fun waits => ?_
      · rw [queue]
        exact List.mem_append_left _ waits
      · rw [grown.waiting, List.mem_append] at waits
        rcases waits with still | late
        · exact still
        · exact absurd rfl (new_apart numbered grown.submitted job old job late)
  | @receive i job rest free first =>
    have there : i < w.workers.length := (List.getElem?_eq_some_iff.1 free).1
    have waits : job ∈ w.queue := first ▸ List.mem_cons_self
    have queue : Workers.queue { w.setWorker i (.holding job) with received := w.received + 1 } =
        rest :=
      queue_received first rfl rfl
    refine told.extend_with staffed after (List.append_nil _).symm (List.forall_mem_nil _)
      (staffed.numbered.known.subset (staffed.waiting_of_queue waits)) i .received ?_ ?_
    · intro stage
      rw [stage.of_queue (staffed.placed job) waits, List.nil_append]
      exact .received i (List.getElem?_set_self there)
    · intro other handed differ ds stage
      refine stage.keep (fun j => setWorker_of_holds free (Option.some_ne_none other).symm)
        (fun queued => ?_) id
      rw [queue]
      rw [first] at queued
      exact List.mem_of_ne_of_mem differ queued
  | @merge i job result holds t same =>
    have there : i < w.workers.length := (List.getElem?_eq_some_iff.1 holds).1
    refine told.extend_with staffed after (by rw [same, List.append_nil]) (List.forall_mem_nil _)
      (staffed.submitted_of_holds (.of_holding holds)) i (.merged result) ?_ ?_
    · intro stage
      rw [stage.of_holding (staffed.placed job) holds]
      exact .merged i result (List.getElem?_set_self there)
    · intro other handed differ ds stage
      refine stage.keep (fun j => setWorker_of_holds holds ?_) ?_ ?_
      · exact fun mine => differ (Option.some.inj mine).symm
      · rw [Workers.queue, Workers.queue, same]
        exact id
      · rw [same]
        exact id
  | @resolve i job result holds t new orderly numbered relieved silent =>
    have handed := staffed.submitted_of_holds (.of_ended holds)
    have queue : Workers.queue { w.setWorker i .idle with site := t } = w.queue ++ new :=
      staffed.queue_grown rfl relieved.submitted
    refine told.extend_with staffed after relieved.submitted ?_ handed i (.resolved result) ?_ ?_
    · intro job late
      rw [queue]
      exact List.mem_append_right _ late
    · intro stage
      rw [stage.of_ended (staffed.placed job) holds]
      refine .resolved i result fun waits => ?_
      rw [relieved.waiting, List.mem_append, List.mem_filter, bne_self_eq_false] at waits
      rcases waits with ⟨_, differ⟩ | late
      · contradiction
      · exact new_apart numbered relieved.submitted job handed job late rfl
    · intro other too differ ds stage
      refine stage.keep (fun j => setWorker_of_holds holds ?_) (fun waits => ?_) fun waits => ?_
      · exact fun mine => differ (Option.some.inj mine).symm
      · rw [queue]
        exact List.mem_append_left _ waits
      · rw [relieved.waiting, List.mem_append] at waits
        rcases waits with still | late
        · exact (List.mem_filter.1 still).1
        · exact absurd rfl (new_apart numbered relieved.submitted other too other late)
  | @leave i free none closed =>
    refine told.extend after.numbered (List.append_nil _).symm (List.forall_mem_nil _)
      (List.forall_mem_nil _) fun job old stage => ?_
    rw [deedsWith_nil, List.append_nil]
    exact stage.keep (fun j => setWorker_of_holds free (Option.some_ne_none job).symm) id id

end Stages

/-- Once all workers have left, nothing is left in the queue, and nobody has a job. -/
theorem Staffed.all_gone (staffed : w.Staffed) (some : w.workers ≠ [])
    (gone : ∀ worker ∈ w.workers, worker = .gone) (job : Job R) :
    job ∉ w.queue ∧ ∀ i, ¬ w.Holds i job := by
  obtain ⟨worker, member⟩ := List.exists_mem_of_ne_nil _ some
  obtain ⟨_, empty⟩ := staffed.leaving (gone worker member ▸ member)
  constructor
  · rw [empty]
    exact List.not_mem_nil
  · intro i holds
    rw [Holds] at holds
    cases there : w.workers[i]? with
    | none => simp [there] at holds
    | some worker =>
      rw [there, gone worker (List.mem_of_getElem? there)] at holds
      simp [Worker.job?] at holds

variable [Quantity R]

/-- What comes of a move. A move that is impossible changes nothing. -/
def perform (w : Workers R) : Move R → Workers R
  | .call call => if w.held && call.asked then { w with site := w.site.perform call } else w
  | .elsewhere ids shelf clock => { w with site := w.site.elsewhere ids shelf clock }
  | .receive worker => (w.receive? worker).getD w
  | .merge worker result ids shelf =>
    (w.merge? worker fun _ s => (.ofExcept result, s.elsewhere ids shelf s.clock)).getD w
  | .resolve worker => (w.resolve? worker).getD w
  | .leave worker => (w.leave? worker).getD w
  | .release => if w.held then w.release else w
  | .shut => if w.held then w else w.shut

def run (w : Workers R) (moves : List (Move R)) : Workers R :=
  moves.foldl perform w

/-- What the workers do in a run, in order. -/
def deeds (w : Workers R) : List (Move R) → List Deed
  | [] => []
  | move :: rest => (w.deed? move).toList ++ (w.perform move).deeds rest

theorem Staffed.resolves (staffed : w.Staffed) {result : Except Failure (List Table)}
    (holds : w.workers[i]? = some (.ended job result)) :
    Moved w [⟨i, job.id, .resolved result⟩] ((w.resolve? i).getD w) := by
  have waits : job ∈ w.site.compactor.waiting :=
    (staffed.placed job).waiting.2 (.inr ⟨i, by simp [Holds, holds, Worker.job?]⟩)
  have silent {new : List (Job R)} (held : w.held = true) : w.closed = true → new = [] :=
    fun closed => absurd (held.symm.trans (staffed.shut closed)) Bool.noConfusion
  have withdrawn : (w.site.withdraw job.id).Orderly := staffed.orderly.withdraw job.id
  have numbered : (w.site.withdraw job.id).Numbered := staffed.numbered.withdraw job.id
  cases result with
  | ok outputs =>
    rw [resolve?, holds]
    cases held : w.held with
    | true =>
      obtain ⟨new, relieved⟩ :=
        Site.relieved_completeJob staffed.orderly staffed.keep waits outputs
      have settling : Site.Act True w.site (w.site.settleJob job outputs) := .settle waits outputs
      have acts : Relation.ReflTransGen (Site.Act True) w.site (w.site.completeJob job outputs) :=
        .head settling (Site.acts_pass (staffed.orderly.act settling))
      exact .resolve holds (staffed.orderly.acts acts) (staffed.numbered.acts acts) relieved
        (silent held)
    | false =>
      exact .resolve holds (withdrawn.of_compactor rfl) (numbered.of_compactor rfl)
        (Site.relieved_of_compactor rfl rfl rfl) fun _ => rfl
  | error cause =>
    rw [resolve?, holds]
    cases held : w.held with
    | true =>
      have failing : Site.Act True w.site (w.site.failJob job cause) := .fail waits cause
      exact .resolve holds (staffed.orderly.act failing) (staffed.numbered.act failing)
        (Site.relieved_of_compactor rfl rfl rfl) fun _ => rfl
    | false =>
      exact .resolve holds (withdrawn.of_compactor rfl) (numbered.of_compactor rfl)
        (Site.relieved_of_compactor rfl rfl rfl) fun _ => rfl

theorem Staffed.makes (staffed : w.Staffed) (move : Move R) :
    Moved w (w.deed? move).toList (w.perform move) := by
  have same {t : Site R} {held closed : Bool} (compactor : t.compactor = w.site.compactor)
      (closes : w.closed = true → closed = true) (shut : closed = true → held = false) :
      Moved w [] { w with site := t, held, closed } :=
    .site (staffed.orderly.of_compactor compactor) (staffed.numbered.of_compactor compactor)
      (.of_compactor compactor) (fun _ => rfl) closes shut
  have still : Moved w [] w := same rfl id staffed.shut
  cases move with
  | call call =>
    rw [perform]
    split
    · next allowed =>
      rw [Bool.and_eq_true] at allowed
      obtain ⟨held, asked⟩ := allowed
      obtain ⟨new, grown⟩ := Site.grown_perform staffed.orderly staffed.keep asked
      have acts : Relation.ReflTransGen (Site.Act True) w.site (w.site.perform call) :=
        Site.acts_perform staffed.orderly call fun _ => trivial
      refine .site (staffed.orderly.acts acts) (staffed.numbered.acts acts) grown ?_ id staffed.shut
      exact fun closed => absurd (held.symm.trans (staffed.shut closed)) Bool.noConfusion
    · exact still
  | elsewhere ids shelf clock => exact same rfl id staffed.shut
  | receive worker =>
    by_cases ready : ∃ job rest, w.workers[worker]? = some .idle ∧ w.queue = job :: rest
    · obtain ⟨job, rest, free, first⟩ := ready
      simp only [perform, receive?, deed?, free, first]
      exact .receive free first
    · have nothing : w.receive? worker = none := by
        rw [receive?]
        split
        · next job rest free first => exact absurd ⟨job, rest, free, first⟩ ready
        · rfl
      have untold : w.deed? (.receive worker) = none := by
        rw [deed?]
        split
        · next job rest free first => exact absurd ⟨job, rest, free, first⟩ ready
        · rfl
      rw [perform, nothing, untold]
      exact still
  | merge worker result ids shelf =>
    by_cases holding : ∃ job, w.workers[worker]? = some (.holding job)
    · obtain ⟨job, holds⟩ := holding
      simp only [perform, merge?, deed?, holds]
      cases result with
      | ok outputs => exact .merge _ holds rfl
      | error cause => exact .merge _ holds rfl
    · have nothing (merge : Job R → Site R → MergeResult × Site R) :
          w.merge? worker merge = none := by
        rw [merge?]
        split
        · next job holds => exact absurd ⟨job, holds⟩ holding
        · rfl
      have untold : w.deed? (.merge worker result ids shelf) = none := by
        rw [deed?]
        split
        · next job holds => exact absurd ⟨job, holds⟩ holding
        · rfl
      rw [perform, nothing, untold]
      exact still
  | resolve worker =>
    rw [perform, deed?]
    split
    · next job result holds => exact staffed.resolves holds
    · next other =>
      have nothing : w.resolve? worker = none := by
        rw [resolve?]
        split
        · next job outputs holds => exact absurd holds (other job _)
        · next job cause holds => exact absurd holds (other job _)
        · rfl
      rw [nothing]
      exact still
  | leave worker =>
    rw [perform, leave?]
    split
    · next free none closed => exact .leave free none closed
    · exact still
  | release =>
    rw [perform]
    split
    · exact same rfl id fun _ => rfl
    · exact still
  | shut =>
    rw [perform]
    split
    · exact still
    · next released =>
      exact same rfl (fun _ => rfl) fun _ => by simpa using released

theorem run_told (staffed : w.Staffed) {ds : List Deed} (told : w.Told ds) (moves : List (Move R)) :
    (w.run moves).Staffed ∧ (w.run moves).Told (ds ++ w.deeds moves) ∧
      (w.run moves).workers.length = w.workers.length := by
  induction moves generalizing w ds with
  | nil =>
    rw [deeds, List.append_nil]
    exact ⟨staffed, told, rfl⟩
  | cons move rest ih =>
    have moved := staffed.makes move
    have later := ih (staffed.moved moved) (told.moved staffed moved)
    rw [moved.length_workers, List.append_assoc] at later
    exact later

/-- However many workers there are, whatever their merges give and however their moves and those of
others interleave: every job handed over is in the queue, with one worker, or resolved. It has been
received once, then merged once, then resolved once, by the same worker: completed with the outputs
of its merge, or failed with its failure. When all workers have left, every job is resolved. -/
theorem run_resolves_jobs_once (s : Site R) (o : Opening R) (count : Nat) (moves : List (Move R)) :
    let idle := start (s.opened { o with intake := .keep }) count
    let w := idle.run moves
    let jobs := w.site.compactor.submitted
    w.workers.length = max count 1 ∧
      (jobs.map (·.id)).Nodup ∧
      (∀ d ∈ idle.deeds moves, ∃ job ∈ jobs, job.id = d.job) ∧
      (∀ job ∈ jobs, w.Placed job ∧ w.Stage job (deedsWith job.id (idle.deeds moves))) ∧
      (∀ i job result, w.workers[i]? = some (.ended job result) →
        (w.perform (.resolve i)).site =
          match result with
          | .ok outputs =>
            if w.held then w.site.completeJob job outputs else w.site.completeLate job
          | .error cause =>
            if w.held then w.site.failJob job cause else w.site.failLate job) ∧
      ((∀ worker ∈ w.workers, worker = .gone) → w.site.compactor.waiting = [] ∧
        ∀ job ∈ jobs, ∃ i result,
          deedsWith job.id (idle.deeds moves) = Deed.course i job.id result) := by
  intro idle w jobs
  have begins : idle.Staffed := staffed_start s { o with intake := .keep } rfl count
  have untold : idle.Told [] :=
    ⟨List.forall_mem_nil _, fun job handed => absurd handed List.not_mem_nil⟩
  obtain ⟨staffed, told, same⟩ := run_told begins untold moves
  rw [List.nil_append] at told
  have length : w.workers.length = max count 1 := same.trans List.length_replicate
  refine ⟨length, ?_, told.known, ?_, ?_, ?_⟩
  · rw [staffed.numbered.ids]
    exact List.nodup_range
  · exact fun job handed => ⟨staffed.placed job, told.stages job handed⟩
  · intro i job result holds
    cases result <;> simp [perform, resolve?, holds]
  · intro gone
    have some : w.workers ≠ [] := by
      intro empty
      rw [empty] at length
      simp at length
      omega
    have nowhere := staffed.all_gone some gone
    constructor
    · refine List.eq_nil_iff_forall_not_mem.2 fun job waits => ?_
      rcases (staffed.placed job).waiting.1 waits with queued | ⟨i, holds⟩
      · exact (nowhere job).1 queued
      · exact (nowhere job).2 i holds
    · intro job handed
      have stage := told.stages job handed
      generalize deedsWith job.id (idle.deeds moves) = done at stage ⊢
      cases stage with
      | queued waits => exact absurd waits (nowhere job).1
      | received i holds => exact absurd (.of_holding holds) ((nowhere job).2 i)
      | merged i result holds => exact absurd (.of_ended holds) ((nowhere job).2 i)
      | resolved i result => exact ⟨i, result, rfl⟩

/-- Two workers, of which the first one fails, and only after the compactor is gone. Neither leaves
before. -/
example :
    let large : List Table := (Table.samples [3, 4]).map fun table => { table with size := 10 ^ 9 }
    let moves : List (Move Float) :=
      [.call (.setThresholds ⟨2, 2, by decide, by decide⟩),
        .call (.flush (Table.samples [1, 2] ++ large)), .call .enable, .call .evaluate,
        .receive 1, .receive 0, .merge 0 (.error .cancelled) ⟨100⟩ .empty,
        .merge 1 (.ok (Table.samples [100])) ⟨101⟩ .empty, .resolve 1, .leave 1, .release, .shut,
        .leave 0, .resolve 0, .leave 0, .leave 1]
    let idle := start (Site.sample.opened (.sample .keep)) 2
    (idle.deeds moves).map (fun d => (d.worker, d.job)) =
        [(1, 0), (0, 1), (0, 1), (1, 0), (1, 0), (0, 1)] ∧
      (idle.run moves).site.counters.completed = 1 ∧ (idle.run moves).site.counters.failed = 0 ∧
      (idle.run moves).workers.all (· matches .gone) := by
  decide +kernel

end Workers

end TieredCompaction
