import TieredCompaction.Proofs.Site.Calls
/-!
What a run takes in and what it merges, as lists. A course derives both lists along with the run,
one act at a time, so that what flushes and merges do to a sum is proved once for each of the two.
-/
namespace TieredCompaction

/-- A merge that is reported: the tables of the store just before, and what replaces what. -/
structure Merge where
  tables : TableSet
  inputs : List Table
  outputs : List Table

namespace Merge

/-- The outputs that are not empty. -/
def kept (m : Merge) : List Table :=
  Site.keptOutputs m.outputs

/-- The outputs that are not empty have IDs of their own, not live once the inputs have left. -/
structure Fresh (m : Merge) : Prop where
  distinct : (m.kept.map (·.id)).Nodup
  unused : ∀ t ∈ m.kept, t.id ∉ (m.tables.removeAll m.inputs).1.liveIds

end Merge

/-- The counters, as far as flushes and merges move them. -/
def Counters.work (c : Counters) : Counters :=
  { c with submitted := 0, failed := 0, pending := 0 }

namespace Site

variable {R : Type}

/-- The tables that a flush adds. -/
def admits (s : Site R) (tables : List Table) : List Table :=
  TableSet.added (s.compactor.tables.receive tables).2

def admittedBy (s : Site R) : Call R → List Table
  | .flush tables => s.admits tables
  | _ => []

variable [Quantity R]

/-- The merges within a chain of at most `limit` passes, at a queue that merges jobs at once. -/
def mergesUpTo : Nat → Site R → List Merge
  | 0, _ => []
  | limit + 1, s =>
    if s.compactor.enabled then
      match s.evaluate with
      | (_, none) => []
      | (s, some job) =>
        match s.compactor.intake with
        | .keep | .drop => []
        | .merge =>
          { tables := s.compactor.tables
            inputs := job.tables
            outputs := [(s.mergeOutput job).1] } :: mergesUpTo limit (s.mergeAtOnce job)
    else []

def passMerges (s : Site R) : List Merge :=
  s.mergesUpTo (s.tableCount + 1)

/-- The merges that a call reports, those of the evaluation that follows included. -/
def mergesBy (s : Site R) : Call R → List Merge
  | .enable => if s.compactor.enabled then [] else s.switchOn.passMerges
  | .flush tables => if (s.admits tables).isEmpty then [] else (s.takeIn tables).1.passMerges
  | .evaluate => s.passMerges
  | .completeJob id outputs =>
    match s.job? id with
    | some job =>
      { tables := s.compactor.tables, inputs := job.tables, outputs } ::
        (s.settleJob job outputs).passMerges
    | none => []
  | .complete start inputs stop outputs =>
    { tables := s.compactor.tables, inputs, outputs } ::
      (s.replace start inputs stop outputs).passMerges
  | _ => []

/-- The tables that the flushes of a run add, in order. -/
def admitted (s : Site R) : List (Call R) → List Table
  | [] => []
  | call :: rest => s.admittedBy call ++ (s.perform call).admitted rest

/-- The merges of a run, in order. -/
def merges (s : Site R) : List (Call R) → List Merge
  | [] => []
  | call :: rest => s.mergesBy call ++ (s.perform call).merges rest

/-- An act that neither takes tables in nor merges any. Nobody else counts if `own`, and thresholds
do not fall below `least`. -/
structure Quiet (own : Prop) (least : Nat) (s t : Site R) : Prop where
  act : Act False s t
  live : t.compactor.tables.live = s.compactor.tables.live
  thresholds : least ≤ s.compactor.thresholds.least → least ≤ t.compactor.thresholds.least
  counters : own → t.counters.work = s.counters.work

/-- The ways from a site to others, with the tables taken in and the merges on the way. Merges are
reported through jobs. -/
inductive Course (own : Prop) (least : Nat) (s : Site R) :
    List Table → List Merge → Site R → Prop where
  | start : Course own least s [] [] s
  | takeIn {taken merged t} (before : Course own least s taken merged t) (tables : List Table) :
      Course own least s (taken ++ t.admits tables) merged (t.takeIn tables).1
  | settle {taken merged t job} (before : Course own least s taken merged t)
      (waits : job ∈ t.compactor.waiting) (outputs : List Table) :
      Course own least s taken (merged ++ [⟨t.compactor.tables, job.tables, outputs⟩])
        (t.settleJob job outputs)
  | quiet {taken merged t u} (before : Course own least s taken merged t)
      (quiet : Quiet own least t u) : Course own least s taken merged u

open Relation (ReflTransGen)

variable {own : Prop} {least : Nat} {s t u : Site R} {taken more : List Table}
  {merged later : List Merge}

namespace Course

theorem trans (first : Course own least s taken merged t)
    (second : Course own least t more later u) :
    Course own least s (taken ++ more) (merged ++ later) u := by
  induction second with
  | start => simpa using first
  | takeIn before tables ih =>
    rw [← List.append_assoc]
    exact ih.takeIn tables
  | settle before waits outputs ih =>
    rw [← List.append_assoc]
    exact ih.settle waits outputs
  | quiet before quiet ih => exact ih.quiet quiet

theorem acts (course : Course own least s taken merged t) : ReflTransGen (Act False) s t := by
  induction course with
  | start => exact .refl
  | takeIn before tables ih => exact ih.tail (.takeIn _ tables)
  | settle before waits outputs ih => exact ih.tail (.settle waits outputs)
  | quiet before quiet ih => exact ih.tail quiet.act

theorem of_quiet (quiet : Quiet own least s t) : Course own least s [] [] t :=
  start.quiet quiet

end Course

/-- An act that leaves the live tables, the thresholds and the counters of flushes and merges. -/
private theorem quiet_of_same (act : Act False s t)
    (live : t.compactor.tables.live = s.compactor.tables.live)
    (thresholds : t.compactor.thresholds = s.compactor.thresholds)
    (counters : t.counters.work = s.counters.work) : Quiet own least s t where
  act
  live
  thresholds := by
    rw [thresholds]
    exact id
  counters _ := counters

private theorem quiet_switchOn (off : s.compactor.enabled = false) :
    Quiet own least s s.switchOn :=
  quiet_of_same (.switchOn off) rfl rfl rfl

private theorem quiet_disable (on : s.compactor.enabled = true) :
    Quiet own least s s.disable.1 := by
  have same := disable_compactor on
  refine quiet_of_same (.switchOff on) (by rw [same]) (by rw [same]) ?_
  simp only [disable, on, if_true]
  rfl

private theorem quiet_passOver (on : s.compactor.enabled = true) (none : s.selection = none) :
    Quiet own least s s.passOver := by
  have same := s.passOver_compactor
  refine quiet_of_same (.passOver on none) (by rw [same]) (by rw [same]) ?_
  rw [passOver_counters]
  rfl

private theorem quiet_handOver (on : s.compactor.enabled = true) {chosen : Selection R}
    (some : s.selection = some chosen) : Quiet own least s (s.handOver chosen) := by
  have same := s.handOver_compactor chosen
  refine quiet_of_same (.handOver on some) (by rw [same]; rfl) (by rw [same]; rfl) ?_
  rw [handOver_counters]
  rfl

private theorem quiet_drop {job : Job R} (waits : job ∈ s.compactor.waiting) :
    Quiet own least s (s.dropJob job) :=
  quiet_of_same (.drop waits) rfl rfl rfl

private theorem quiet_fail {job : Job R} (waits : job ∈ s.compactor.waiting) (cause : Failure) :
    Quiet own least s (s.failJob job cause) :=
  quiet_of_same (.fail waits cause) rfl rfl rfl

private theorem course_settleMerged {job : Job R} (waits : job ∈ s.compactor.waiting) :
    Course own least s [] [⟨s.compactor.tables, job.tables, [(s.mergeOutput job).1]⟩]
      (s.settleMerged job) := by
  have made : Quiet own least s (s.mergeOutput job).2 :=
    quiet_of_same (.elsewhere s _ _ s.clock) rfl rfl rfl
  exact (Course.of_quiet made).settle (t := (s.mergeOutput job).2) waits _

theorem mergesUpTo_off (off : s.compactor.enabled = false) (limit : Nat) :
    s.mergesUpTo limit = [] := by
  cases limit <;> simp [mergesUpTo, off]

theorem mergesUpTo_none (on : s.compactor.enabled = true) (none : s.selection = none)
    (limit : Nat) : s.mergesUpTo limit = [] := by
  cases limit with
  | zero => rfl
  | succ limit => simp only [mergesUpTo, on, if_true, evaluate_of_none none]

theorem mergesUpTo_kept (orderly : s.Orderly) (on : s.compactor.enabled = true)
    {chosen : Selection R} (some : s.selection = some chosen) (kept : s.compactor.intake ≠ .merge)
    (limit : Nat) : s.mergesUpTo limit = [] := by
  cases limit with
  | zero => rfl
  | succ limit =>
    have submits := submits orderly some
    simp only [mergesUpTo, on, if_true, submits.evaluate, submits.intake]
    cases intake : s.compactor.intake with
    | merge => exact absurd intake kept
    | _ => rfl

theorem mergesUpTo_merge (orderly : s.Orderly) (on : s.compactor.enabled = true)
    {chosen : Selection R} (some : s.selection = some chosen) (merge : s.compactor.intake = .merge)
    (limit : Nat) : s.mergesUpTo (limit + 1) =
      { tables := (s.handOver chosen).compactor.tables
        inputs := (s.jobOf chosen).tables
        outputs := [((s.handOver chosen).mergeOutput (s.jobOf chosen)).1] } ::
      ((s.handOver chosen).settleMerged (s.jobOf chosen)).mergesUpTo limit := by
  have submits := submits orderly some
  simp only [mergesUpTo, on, if_true, submits.evaluate, submits.intake, merge, submits.tables,
    submits.output, submits.merge]

theorem Chain.course {limit : Nat} (chain : Chain limit s t) :
    Course own least s [] (s.mergesUpTo limit) t := by
  induction chain with
  | cut => exact .start
  | off off =>
    rw [mergesUpTo_off off]
    exact .start
  | idle on none =>
    rw [mergesUpTo_none on none]
    exact .of_quiet (quiet_passOver on none)
  | keep orderly on some keep =>
    rw [mergesUpTo_kept orderly on some (by simp [keep])]
    exact .of_quiet (quiet_handOver on some)
  | @drop s limit chosen orderly on some drop =>
    rw [mergesUpTo_kept orderly on some (by simp [drop])]
    exact (Course.of_quiet (quiet_handOver on some)).quiet (quiet_drop (s.waits_handOver chosen))
  | @merge s t limit chosen orderly on some merge rest ih =>
    have handed : Course own least s [] [] (s.handOver chosen) :=
      .of_quiet (quiet_handOver on some)
    have merged := handed.trans (course_settleMerged (s.waits_handOver chosen))
    rw [mergesUpTo_merge orderly on some merge]
    exact merged.trans ih

theorem course_pass (orderly : s.Orderly) : Course own least s [] s.passMerges s.pass.1 :=
  (chain_passUpTo orderly _).course

private theorem course_then_pass (orderly : s.Orderly)
    (course : Course own least s taken merged t) :
    Course own least s taken (merged ++ t.passMerges) t.pass.1 := by
  have later : Course own least t [] t.passMerges t.pass.1 :=
    course_pass (orderly.acts course.acts)
  simpa using course.trans later

private theorem course_failing {id : Nat} {f : Site R → Job R → Site R}
    (quiet : ∀ job ∈ s.compactor.waiting, Quiet own least s (f s job)) :
    Course own least s [] [] (s.onJob id f) := by
  rw [onJob]
  split
  · next job found => exact .of_quiet (quiet job (List.mem_of_find?_eq_some found))
  · exact .start

theorem course_perform (orderly : s.Orderly) (call : Call R) (viaJobs : call.direct = false)
    (alone : own → call.counts = false)
    (bounded : ∀ t, call = .setThresholds t → least ≤ t.least) :
    Course own least s (s.admittedBy call) (s.mergesBy call) (s.perform call) := by
  cases call with
  | enable =>
    cases enabled : s.compactor.enabled with
    | false =>
      rw [perform, enable_of_off enabled]
      simp only [admittedBy, mergesBy, enabled, Bool.false_eq_true, if_false]
      have later : Course own least s [] ([] ++ s.switchOn.passMerges) s.switchOn.pass.1 :=
        course_then_pass orderly (.of_quiet (quiet_switchOn enabled))
      rwa [List.nil_append] at later
    | true =>
      rw [perform, enable_of_on enabled]
      simp only [admittedBy, mergesBy, enabled, if_true]
      exact .start
  | disable =>
    cases enabled : s.compactor.enabled with
    | false =>
      rw [perform, disable_of_off enabled]
      exact .start
    | true => exact .of_quiet (quiet_disable enabled)
  | flush tables =>
    have received : Course own least s (s.admits tables) [] (s.takeIn tables).1 :=
      Course.start.takeIn tables
    rw [perform, flush_eq]
    change Course own least s (s.admits tables)
      (if (s.admits tables).isEmpty then [] else (s.takeIn tables).1.passMerges)
      (if (s.admits tables).isEmpty then (s.takeIn tables).1 else (s.takeIn tables).1.pass.1)
    split
    · exact received
    · have later := course_then_pass orderly received
      rwa [List.nil_append] at later
  | evaluate => exact course_pass orderly
  | setThresholds t =>
    exact .of_quiet ⟨.setThresholds s t, rfl, fun _ => bounded t rfl, fun _ => rfl⟩
  | completeJob id outputs =>
    cases found : s.job? id with
    | none =>
      simp only [perform, mergesBy, onJob, found]
      exact .start
    | some job =>
      simp only [perform, mergesBy, onJob, found]
      have waits : job ∈ s.compactor.waiting := List.mem_of_find?_eq_some found
      have later : Course own least s [] _ (s.completeJob job outputs) :=
        course_then_pass orderly (Course.start.settle waits outputs)
      rwa [List.nil_append, List.singleton_append] at later
  | failJob id cause =>
    rw [perform]
    exact course_failing fun job waits => quiet_fail waits cause
  | dropJob id => exact course_failing fun job waits => quiet_drop waits
  | complete => exact Bool.noConfusion viaJobs
  | giveBack => exact Bool.noConfusion viaJobs
  | setIntake intake => exact .of_quiet (quiet_of_same (.setIntake s intake) rfl rfl rfl)
  | elsewhere ids shelf clock =>
    exact .of_quiet (quiet_of_same (.elsewhere s ids shelf clock) rfl rfl rfl)
  | count counters =>
    exact .of_quiet ⟨.count s counters, rfl, id, fun owned => Bool.noConfusion (alone owned)⟩

/-- A run whose merges are reported through jobs is a course. -/
theorem course_run (orderly : s.Orderly) {calls : List (Call R)}
    (viaJobs : ∀ call ∈ calls, call.direct = false)
    (alone : own → ∀ call ∈ calls, call.counts = false)
    (bounded : ∀ t, .setThresholds t ∈ calls → least ≤ t.least) :
    Course own least s (s.admitted calls) (s.merges calls) (s.run calls) := by
  induction calls generalizing s with
  | nil => exact .start
  | cons call rest ih =>
    have first : Course own least s (s.admittedBy call) (s.mergesBy call) (s.perform call) :=
      course_perform orderly call (viaJobs call List.mem_cons_self)
        (fun owned => alone owned call List.mem_cons_self)
        (fun t same => bounded t (same ▸ List.mem_cons_self))
    exact first.trans (ih (orderly.acts first.acts)
      (fun other member => viaJobs other (List.mem_cons_of_mem _ member))
      (fun owned other member => alone owned other (List.mem_cons_of_mem _ member))
      (fun t member => bounded t (List.mem_cons_of_mem _ member)))

end Site

end TieredCompaction
