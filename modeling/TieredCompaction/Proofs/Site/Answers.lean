import TieredCompaction.Proofs.Site.GivingBack
import TieredCompaction.Proofs.Site.Tally
/-!
Queues that deal with a job before the hand-over returns. A queue may complete a job there with any
outputs, fail it or throw it away. Whatever it does, it might as well keep the job and do the same once
the evaluation is over: its answers stand for calls that resolve the jobs one after the other
(`passAnswering_eq`), and a run with such a queue is a run with one that keeps all jobs, with these calls
in between (`exists_run_runAnswering`).
-/
namespace TieredCompaction

/-- What a queue does with a job before the hand-over returns. -/
inductive Answer where
  | keep
  | complete (outputs : List Table)
  | fail (cause : Failure)
  | drop

namespace Site

variable {R : Type}

/-- The calls that do to jobs what the answers do, the first of which is to the job of an ID. Only
a job that completes starts an evaluation, and with it the next job. -/
def resolutions : Nat → List Answer → List (Call R)
  | _, [] => []
  | _, .keep :: _ => []
  | id, .complete outputs :: later => .completeJob id outputs :: resolutions (id + 1) later
  | id, .fail cause :: _ => [.failJob id cause]
  | id, .drop :: _ => [.dropJob id]

theorem resolves_of_mem_resolutions {call : Call R} {id : Nat} {answers : List Answer}
    (member : call ∈ resolutions id answers) : call.resolves.isSome = true := by
  induction answers generalizing id with
  | nil => exact absurd member List.not_mem_nil
  | cons answer later ih =>
    cases answer with
    | keep => exact absurd member List.not_mem_nil
    | complete outputs =>
      rcases List.mem_cons.1 member with rfl | member
      · rfl
      · exact ih member
    | fail cause => rw [List.mem_singleton.1 member]; rfl
    | drop => rw [List.mem_singleton.1 member]; rfl

variable [Quantity R] {s t : Site R}

/-- A chain of passes with a queue that gives one answer to each job, until it has no more. -/
def passAnswering : List Answer → Site R → Site R
  | [], s => s.pass.1
  | answer :: later, s =>
    if s.compactor.enabled then
      match s.evaluate with
      | (s, none) => s
      | (s, some job) =>
        match answer with
        | .keep => s.park job
        | .complete outputs =>
          passAnswering later (s.replace job.startedAt job.tables s.clock.moment outputs)
        | .fail cause => s.giveBack job.tables cause
        | .drop => s.abandon job
    else s

/-- A call with a queue that gives these answers, whatever it was going to do with jobs. -/
def performAnswering (s : Site R) (call : Call R) (answers : List Answer) : Site R :=
  match (s.setIntake .keep).begins call with
  | some t => t.passAnswering answers
  | none => (s.setIntake .keep).perform call

/-- A run with a queue that gives the answers that stand beside each call. -/
def runAnswering (s : Site R) (calls : List (Call R × List Answer)) : Site R :=
  calls.foldl (fun s call => s.performAnswering call.1 call.2) s

/-- Nobody has a job that is not given out yet. -/
theorem run_resolutions_of_unissued (orderly : s.Orderly) {id : Nat}
    (unissued : s.compactor.nextJob ≤ id) (answers : List Answer) :
    s.run (resolutions id answers) = s := by
  have unknown {id : Nat} (unissued : s.compactor.nextJob ≤ id) : s.job? id = none := by
    apply List.find?_eq_none.2
    intro job waits same
    have issued := orderly.issued job waits
    rw [beq_iff_eq] at same
    omega
  induction answers generalizing id with
  | nil => rfl
  | cons answer later ih =>
    cases answer with
    | keep => rfl
    | complete outputs =>
      have none : s.perform (.completeJob id outputs) = s := by
        rw [perform, onJob, unknown unissued]
      rw [resolutions, run, List.foldl_cons, none]
      exact ih (Nat.le_succ_of_le unissued)
    | fail cause =>
      change s.perform (.failJob id cause) = s
      rw [perform, onJob, unknown unissued]
    | drop =>
      change s.perform (.dropJob id) = s
      rw [perform, onJob, unknown unissued]

theorem perform_completeJob (orderly : s.Orderly) {job : Job R} (waits : job ∈ s.compactor.waiting)
    (outputs : List Table) :
    s.perform (.completeJob job.id outputs) = (s.settleJob job outputs).pass.1 := by
  rw [perform, onJob, job?_eq_some orderly waits]
  rfl

/-- One answer: it comes to the same if the job is kept first. -/
theorem passAnswering_of_some (orderly : s.Orderly) (on : s.compactor.enabled = true)
    {chosen : Selection R} (some : s.selection = some chosen) (answer : Answer)
    (later : List Answer) :
    s.passAnswering (answer :: later) =
      match answer with
      | .keep => s.handOver chosen
      | .complete outputs =>
        ((s.handOver chosen).settleJob (s.jobOf chosen) outputs).passAnswering later
      | .fail cause => (s.handOver chosen).failJob (s.jobOf chosen) cause
      | .drop => (s.handOver chosen).dropJob (s.jobOf chosen) := by
  have submits := submits orderly some
  rw [passAnswering]
  simp only [on, if_true, submits.evaluate]
  cases answer with
  | keep => exact submits.keep
  | complete outputs => exact congrArg (passAnswering later) (submits.complete outputs)
  | fail cause => exact submits.fail cause
  | drop => exact submits.drop

/-- Whatever a queue answers, it might have kept the jobs and done the same right after. -/
theorem passAnswering_eq (orderly : s.Orderly) (keep : s.compactor.intake = .keep)
    (answers : List Answer) :
    s.passAnswering answers = s.pass.1.run (resolutions s.compactor.nextJob answers) := by
  induction answers generalizing s with
  | nil => rfl
  | cons answer later ih =>
    cases on : s.compactor.enabled with
    | false =>
      have passed : s.pass.1 = s := by rw [pass, passUpTo_off on]
      rw [passed, run_resolutions_of_unissued orderly (Nat.le_refl _)]
      simp [passAnswering, on]
    | true =>
      cases selected : s.selection with
      | none =>
        have passed : s.pass.1 = s.passOver := by rw [pass, passUpTo_none on selected]
        have act : Act False s s.passOver := .passOver on selected
        have next : s.passOver.compactor.nextJob = s.compactor.nextJob := by
          rw [passOver_compactor]
        rw [passed, run_resolutions_of_unissued (orderly.act act) (Nat.le_of_eq next)]
        simp [passAnswering, on, evaluate_of_none selected]
      | some chosen =>
        have passed : s.pass.1 = s.handOver chosen := by
          rw [pass, passUpTo_keep orderly on selected keep]
        have act : Act False s (s.handOver chosen) := .handOver on selected
        have handed : (s.handOver chosen).Orderly := orderly.act act
        have waits := s.waits_handOver chosen
        rw [passed, passAnswering_of_some orderly on selected]
        cases answer with
        | keep => rfl
        | complete outputs =>
          -- the next job is handed over once this one is settled, and has the next ID
          have compactor := (s.handOver chosen).settleJob_compactor (s.jobOf chosen) outputs
          rw [handOver_compactor] at compactor
          have settle : Act False (s.handOver chosen)
              ((s.handOver chosen).settleJob (s.jobOf chosen) outputs) := .settle waits outputs
          have next := ih (handed.act settle) (by rw [compactor]; exact keep)
          rw [← perform_completeJob handed waits outputs, compactor] at next
          exact next
        | fail cause => exact (perform_failJob handed waits cause).symm
        | drop => exact (perform_dropJob handed waits).symm

/-- What comes before an evaluation leaves it to the queue what to do with jobs. -/
theorem intake_begins {call : Call R} (begins : s.begins call = some t) :
    t.compactor.intake = s.compactor.intake := by
  cases (begun_of_begins begins).1 with
  | nothing => rfl
  | switchOn => rfl
  | takeIn => rw [takeIn_compactor]
  | settle => rw [settleJob_compactor]
  | replace => rw [replace_compactor]

/-- A call with a queue that gives answers is the call with one that keeps jobs, and then calls that
resolve jobs. -/
theorem exists_run_performAnswering (orderly : s.Orderly) (call : Call R) (answers : List Answer) :
    ∃ later : List (Call R), (∀ other ∈ later, other.resolves.isSome = true) ∧
      s.performAnswering call answers = s.run (.setIntake .keep :: call :: later) := by
  rw [performAnswering]
  cases begins : (s.setIntake .keep).begins call with
  | none => exact ⟨[], by simp, rfl⟩
  | some t =>
    obtain ⟨before, performed⟩ := of_begins begins
    have ready : Act True s (s.setIntake .keep) := .setIntake s .keep
    have settled : t.Orderly := (orderly.act ready).acts before
    refine ⟨resolutions t.compactor.nextJob answers, fun _ => resolves_of_mem_resolutions, ?_⟩
    simp only [passAnswering_eq settled (intake_begins begins), ← performed]
    rfl

/-- A run with a queue that gives answers is a run with one that keeps all jobs. The calls are the same
in the same order, but for some in between that resolve jobs. -/
theorem exists_run_runAnswering (orderly : s.Orderly) (calls : List (Call R × List Answer)) :
    ∃ kept : List (Call R), (calls.map (·.1)).Sublist kept ∧
      (∀ call ∈ kept, call ∈ calls.map (·.1) ∨ call = .setIntake .keep ∨
        call.resolves.isSome = true) ∧
      s.runAnswering calls = s.run kept := by
  induction calls generalizing s with
  | nil => exact ⟨[], .slnil, by simp, rfl⟩
  | cons call rest ih =>
    obtain ⟨later, resolve, performed⟩ := exists_run_performAnswering orderly call.1 call.2
    have acts := acts_run_any orderly (.setIntake .keep :: call.1 :: later)
    obtain ⟨kept, sublist, known, run⟩ := ih (orderly.acts acts)
    refine ⟨.setIntake .keep :: call.1 :: (later ++ kept), ?_, ?_, ?_⟩
    · apply List.Sublist.cons
      exact (sublist.trans (List.sublist_append_right later kept)).cons_cons call.1
    · intro other member
      rw [List.map_cons, List.mem_cons]
      rcases List.mem_cons.1 member with set | member
      · exact .inr (.inl set)
      rcases List.mem_cons.1 member with same | member
      · exact .inl (.inl same)
      rcases List.mem_append.1 member with new | old
      · exact .inr (.inr (resolve other new))
      · exact (known other old).imp_left .inr
    · have begun : s.runAnswering (call :: rest) =
          (s.run (.setIntake .keep :: call.1 :: later)).runAnswering rest :=
        congrArg (·.runAnswering rest) performed
      have whole : s.run (.setIntake .keep :: call.1 :: later ++ kept) =
          (s.run (.setIntake .keep :: call.1 :: later)).run kept := List.foldl_append
      exact begun.trans (run.trans whole.symm)

/-- A job is completed with four tables, which make the next job, and that one fails. -/
example :
    let answers : List Answer := [.complete (Table.samples [5, 6, 7, 8]), .fail .cancelled, .drop]
    let s := (sample.opened (.sample .keep)).run [.enable]
    let t := s.performAnswering (.flush (Table.samples [1, 2, 3, 4])) answers
    t.compactor.tables.liveIds = [5, 6, 7, 8] ∧ t.inFlightCount = 0 ∧
      t.counters.submitted = 2 ∧ t.counters.completed = 1 ∧ t.counters.failed = 1 := by
  decide +kernel

end Site

end TieredCompaction
