import TieredCompaction.Proofs.Site.Conservation
import TieredCompaction.Proofs.Site.Draining
/-!
Merging settles. Whatever has been called, the chain of passes that a call starts comes to an end,
and so does draining the queue. Neither leaves more tables than it finds, unless a direct report
took the tables of waiting jobs away: such a job still adds its output. Each merge takes more tables
than it gives, and these come from flushes, so that there are not many merges.
-/
namespace TieredCompaction

/-- Whether a call leaves it at merges that are reported through jobs and give one table at most,
with thresholds of `least` tables or more. -/
def Call.mergesToOne {R : Type} (least : Nat) : Call R → Bool
  | .setThresholds t => least ≤ t.least
  | .completeJob _ outputs => outputs.length ≤ 1
  | call => !call.direct

/-- The tables of which a call reports directly what became of them. -/
def Call.reported {R : Type} : Call R → List Table
  | .complete _ inputs _ _ | .giveBack inputs _ => inputs
  | _ => []

theorem Call.viaJobs_of_mergesToOne {R : Type} {least : Nat} {call : Call R}
    (one : call.mergesToOne least = true) : call.direct = false := by
  cases call with
  | complete => exact Bool.noConfusion one
  | giveBack => exact Bool.noConfusion one
  | _ => rfl

theorem le_length_inputsOf {least : Nat} {merged : List Merge}
    (enough : ∀ m ∈ merged, least ≤ m.inputs.length) :
    merged.length * least ≤ (inputsOf merged).length := by
  induction merged with
  | nil => simp
  | cons m rest ih =>
    obtain ⟨first, others⟩ := List.forall_mem_cons.1 enough
    rw [inputsOf, List.flatMap_cons, List.length_append, List.length_cons, Nat.succ_mul]
    exact Nat.add_comm _ _ ▸ Nat.add_le_add first (ih others)

theorem length_keptOf_le {merged : List Merge} (one : ∀ m ∈ merged, m.outputs.length ≤ 1) :
    (keptOf merged).length ≤ merged.length := by
  induction merged with
  | nil => simp [keptOf]
  | cons m rest ih =>
    obtain ⟨first, others⟩ := List.forall_mem_cons.1 one
    have kept : m.kept.length ≤ 1 := Nat.le_trans (List.length_filter_le _ _) first
    rw [keptOf, List.flatMap_cons, List.length_append, List.length_cons, Nat.add_comm]
    exact Nat.add_le_add (ih others) kept

namespace Site

variable {R : Type} [Quantity R] {own : Prop} {least n : Nat} {s t : Site R}
  {taken : List Table} {merged : List Merge}

open Relation (ReflTransGen)

/-- Where the chain of passes starts that a call brings about, if it brings one about. -/
def begins (s : Site R) : Call R → Option (Site R)
  | .enable => if s.compactor.enabled then none else some s.switchOn
  | .flush tables => if (s.admits tables).isEmpty then none else some (s.takeIn tables).1
  | .evaluate => some s
  | .completeJob id outputs => (s.job? id).map fun job => s.settleJob job outputs
  | .complete start inputs stop outputs => some (s.replace start inputs stop outputs)
  | _ => none

/-- What a call can have done when it starts to evaluate the store. -/
inductive Begun (s : Site R) : Site R → Prop where
  | nothing : Begun s s
  | switchOn (off : s.compactor.enabled = false) : Begun s s.switchOn
  | takeIn (tables : List Table) : Begun s (s.takeIn tables).1
  | settle {job : Job R} (waits : job ∈ s.compactor.waiting) (outputs : List Table) :
      Begun s (s.settleJob job outputs)
  | replace (start : Moment) (inputs : List Table) (stop : Moment) (outputs : List Table) :
      Begun s (s.replace start inputs stop outputs)

theorem Begun.acts (begun : s.Begun t) : ReflTransGen (Act True) s t := by
  cases begun with
  | nothing => exact .refl
  | switchOn off => exact .single (.switchOn off)
  | takeIn tables => exact .single (.takeIn s tables)
  | settle waits outputs => exact .single (.settle waits outputs)
  | replace start inputs stop outputs =>
    exact .single (.replace s trivial start inputs stop outputs)

/-- The evaluation is the last thing that a call does. -/
theorem begun_of_begins {call : Call R} (begins : s.begins call = some t) :
    s.Begun t ∧ s.perform call = t.pass.1 := by
  cases call with
  | enable =>
    cases enabled : s.compactor.enabled with
    | false =>
      simp only [Site.begins, enabled, Bool.false_eq_true, if_false, Option.some.injEq] at begins
      subst begins
      exact ⟨.switchOn enabled, by rw [perform, enable_of_off enabled]⟩
    | true => simp [Site.begins, enabled] at begins
  | flush tables =>
    simp only [Site.begins] at begins
    split at begins
    · contradiction
    · next new =>
      rw [← Option.some.inj begins, perform, flush_eq]
      exact ⟨.takeIn tables, if_neg new⟩
  | evaluate =>
    rw [← Option.some.inj begins]
    exact ⟨.nothing, rfl⟩
  | completeJob id outputs =>
    obtain ⟨job, found, rfl⟩ := Option.map_eq_some_iff.1 begins
    rw [perform, onJob, found]
    exact ⟨.settle (List.mem_of_find?_eq_some found) outputs, rfl⟩
  | complete start inputs stop outputs =>
    rw [← Option.some.inj begins]
    exact ⟨.replace start inputs stop outputs, rfl⟩
  | _ => contradiction

theorem of_begins {call : Call R} (begins : s.begins call = some t) :
    ReflTransGen (Act True) s t ∧ s.perform call = t.pass.1 :=
  (begun_of_begins begins).imp_left Begun.acts

/-- Every waiting job has at least `least` tables. -/
def Filled (least : Nat) (s : Site R) : Prop :=
  ∀ job ∈ s.compactor.waiting, least ≤ job.tables.length

omit [Quantity R] in
theorem filled_opened (s : Site R) (o : Opening R) : (s.opened o).Filled least :=
  fun _ waits => absurd waits List.not_mem_nil

theorem Filled.act {direct : Prop} (filled : s.Filled least)
    (bounded : least ≤ s.compactor.thresholds.least) (act : Act direct s t) : t.Filled least := by
  have fewer (jobs : List (Job R)) (sub : jobs.Sublist s.compactor.waiting) :
      ∀ job ∈ jobs, least ≤ job.tables.length := fun job waits => filled job (sub.subset waits)
  cases act with
  | switchOff on => rw [Filled, disable_compactor on]; exact filled
  | takeIn tables => rw [Filled, takeIn_compactor]; exact filled
  | passOver => rw [Filled, passOver_compactor]; exact filled
  | handOver on some =>
    rw [Filled, handOver_compactor]
    intro job waits
    rcases List.mem_append.1 waits with old | new
    · exact filled job old
    · rw [List.mem_singleton.1 new]
      exact Nat.le_trans bounded (least_le_length_selection some)
  | settle waits outputs =>
    rw [Filled, settleJob_compactor]
    exact fewer _ List.filter_sublist
  | fail | drop => exact fewer _ List.filter_sublist
  | replace => rw [Filled, replace_compactor]; exact filled
  | _ => exact filled

theorem Filled.acts {direct : Prop} (filled : s.Filled 2) (orderly : s.Orderly)
    (acts : ReflTransGen (Act direct) s t) : t.Filled 2 :=
  invariant (fun _ filled act => filled.act (Thresholds.two_le_least _) act) acts orderly filled

/-- Merges of a course take at least as many tables as the lowest thresholds ask for. -/
theorem Course.filled (course : Course own least s taken merged t)
    (bounded : least ≤ s.compactor.thresholds.least) (filled : s.Filled least) :
    least ≤ t.compactor.thresholds.least ∧ t.Filled least ∧
      ∀ m ∈ merged, least ≤ m.inputs.length := by
  induction course with
  | start => exact ⟨bounded, filled, List.forall_mem_nil _⟩
  | @takeIn taken merged t before tables ih =>
    obtain ⟨bounded, filled, enough⟩ := ih
    have act : Act False t (t.takeIn tables).1 := .takeIn t tables
    refine ⟨?_, filled.act bounded act, enough⟩
    rw [takeIn_compactor]
    exact bounded
  | @settle taken merged t job before waits outputs ih =>
    obtain ⟨bounded, filled, enough⟩ := ih
    have act : Act False t (t.settleJob job outputs) := .settle waits outputs
    refine ⟨?_, filled.act bounded act, ?_⟩
    · rw [settleJob_compactor]
      exact bounded
    · exact List.forall_mem_append.2 ⟨enough, List.forall_mem_singleton.2 (filled job waits)⟩
  | quiet before quiet ih =>
    obtain ⟨bounded, filled, enough⟩ := ih
    exact ⟨quiet.thresholds bounded, filled.act bounded quiet.act, enough⟩

/-- With each merge the tables become fewer by those that it takes, but for one. -/
theorem Course.bounded (course : Course own least s taken merged t) (orderly : s.Orderly)
    (booked : s.Booked) (positive : 0 < least) (bounded : least ≤ s.compactor.thresholds.least)
    (filled : s.Filled least) (one : ∀ m ∈ merged, m.outputs.length ≤ 1) :
    merged.length * (least - 1) + t.tableCount ≤ s.tableCount + taken.length := by
  have whole := (course.subperm orderly booked).length_le
  have inputs := le_length_inputsOf (course.filled bounded filled).2.2
  have outputs := length_keptOf_le one
  have split : merged.length * least = merged.length * (least - 1) + merged.length := by
    rw [← Nat.mul_succ, Nat.succ_eq_add_one, Nat.sub_add_cancel positive]
  simp only [List.length_append] at whole
  rw [tableCount, tableCount]
  omega

theorem outputs_mergesUpTo (limit : Nat) : ∀ m ∈ s.mergesUpTo limit, m.outputs.length = 1 := by
  induction limit generalizing s with
  | zero => exact List.forall_mem_nil _
  | succ limit ih =>
    rw [mergesUpTo]
    split
    · split
      · exact List.forall_mem_nil _
      · split
        · exact List.forall_mem_nil _
        · exact List.forall_mem_nil _
        · exact List.forall_mem_cons.2 ⟨rfl, ih⟩
    · exact List.forall_mem_nil _

theorem outputs_mergesBy {call : Call R} (one : call.mergesToOne least = true) :
    ∀ m ∈ s.mergesBy call, m.outputs.length ≤ 1 := by
  have passes (u : Site R) : ∀ m ∈ u.passMerges, m.outputs.length ≤ 1 :=
    fun m member => Nat.le_of_eq (outputs_mergesUpTo _ m member)
  cases call with
  | enable =>
    rw [mergesBy]
    split
    · exact List.forall_mem_nil _
    · exact passes _
  | flush tables =>
    rw [mergesBy]
    split
    · exact List.forall_mem_nil _
    · exact passes _
  | evaluate => exact passes _
  | completeJob id outputs =>
    rw [mergesBy]
    split
    · exact List.forall_mem_cons.2 ⟨of_decide_eq_true one, passes _⟩
    · exact List.forall_mem_nil _
  | complete => exact Bool.noConfusion one
  | giveBack => exact Bool.noConfusion one
  | _ => exact List.forall_mem_nil _

theorem outputs_merges {calls : List (Call R)}
    (one : ∀ call ∈ calls, call.mergesToOne least = true) :
    ∀ m ∈ s.merges calls, m.outputs.length ≤ 1 := by
  induction calls generalizing s with
  | nil => exact List.forall_mem_nil _
  | cons call rest ih =>
    obtain ⟨first, others⟩ := List.forall_mem_cons.1 one
    exact List.forall_mem_append.2 ⟨outputs_mergesBy first, ih others⟩

/-- Whether no merge is reported directly of a table that a waiting job holds. -/
def undisturbed (s : Site R) : List (Call R) → Bool
  | [] => true
  | call :: rest =>
    (call.reported.all fun t => !(heldIds s.compactor.waiting).contains t.id) &&
      (s.perform call).undisturbed rest

omit [Quantity R] in
private theorem Booked.replace (booked : s.Booked) {start : Moment} {inputs : List Table}
    {stop : Moment} {outputs : List Table}
    (apart : ∀ t ∈ inputs, t.id ∉ heldIds s.compactor.waiting) :
    (s.replace start inputs stop outputs).Booked := by
  have hidden := TableSet.filter_of_apart (booked.held ▸ apart)
  refine ⟨?_, ?_, ?_⟩ <;> rw [replace_compactor]
  · rw [TableSet.receive_hidden, TableSet.removeAll_fst, hidden, booked.held]
  · rw [TableSet.receive_hidden, TableSet.removeAll_fst, hidden]
    exact booked.distinct
  · intro job waits t held
    rw [TableSet.receive_live]
    refine List.mem_append_left _ (TableSet.mem_live_removeAll.2 ⟨booked.live job waits t held, ?_⟩)
    intro reported
    obtain ⟨u, member, same⟩ := List.mem_map.1 reported
    refine apart u member (List.mem_flatMap.2 ⟨job, waits, ?_⟩)
    rw [same]
    exact List.mem_map_of_mem held

omit [Quantity R] in
private theorem Booked.giveBack (booked : s.Booked) {inputs : List Table} {cause : Failure}
    (apart : ∀ t ∈ inputs, t.id ∉ heldIds s.compactor.waiting) :
    (s.giveBack inputs cause).Booked where
  held := (TableSet.filter_of_apart (booked.held ▸ apart)).trans booked.held
  distinct := booked.distinct.sublist List.filter_sublist
  live := booked.live

/-- A direct report of tables that no job holds leaves the jobs as they are. -/
private theorem Booked.perform (booked : s.Booked) (orderly : s.Orderly) {call : Call R}
    (apart : ∀ t ∈ call.reported, t.id ∉ heldIds s.compactor.waiting) :
    (s.perform call).Booked := by
  cases direct : call.direct with
  | false =>
    exact booked.acts orderly
      (acts_perform orderly call fun reports => absurd (direct ▸ reports) Bool.false_ne_true)
  | true =>
    cases call with
    | complete start inputs stop outputs =>
      have replaced : Act True s (s.replace start inputs stop outputs) :=
        .replace s trivial start inputs stop outputs
      have ordered := orderly.act replaced
      exact (booked.replace apart).acts ordered (acts_pass ordered)
    | giveBack inputs cause => exact booked.giveBack apart
    | _ => contradiction

theorem Booked.run (booked : s.Booked) (orderly : s.Orderly) {calls : List (Call R)}
    (undisturbed : s.undisturbed calls = true) : (s.run calls).Booked := by
  induction calls generalizing s with
  | nil => exact booked
  | cons call rest ih =>
    obtain ⟨apart, undisturbed⟩ := Bool.and_eq_true_iff.1 undisturbed
    have apart : ∀ t ∈ call.reported, t.id ∉ heldIds s.compactor.waiting := by
      simpa using apart
    have acts : ReflTransGen (Act True) s (s.perform call) :=
      acts_perform orderly call fun _ => trivial
    exact ih (booked.perform orderly apart) (orderly.acts acts) undisturbed

theorem tableCount_mergeJob_lt (orderly : s.Orderly) (booked : s.Booked) (filled : s.Filled 2)
    {job : Job R} (waits : job ∈ s.compactor.waiting) :
    (s.mergeJob job).tableCount < s.tableCount := by
  have fewer :=
    tableCount_settleMerged_add_le (booked.distinct_tables waits) (booked.live job waits)
  have two := filled job waits
  have settled : ReflTransGen (Act False) s (s.settleMerged job) := acts_settleMerged waits
  have passed : (s.mergeJob job).tableCount ≤ (s.settleMerged job).tableCount :=
    tableCount_pass_le (orderly.acts settled)
  omega

/-- Draining leaves one table fewer for each merge, however far it goes. -/
theorem tableCount_drainUpTo_le (orderly : s.Orderly) (booked : s.Booked) (filled : s.Filled 2)
    (limit : Nat) : (s.drainUpTo mergeJob limit).2 +
      (s.drainUpTo mergeJob limit).1.tableCount ≤ s.tableCount := by
  induction limit generalizing s with
  | zero => simp [drainUpTo]
  | succ limit ih =>
    cases queue : s.compactor.waiting with
    | nil => simp [drainUpTo, queue]
    | cons job rest =>
      have waits : job ∈ s.compactor.waiting := queue ▸ List.mem_cons_self
      have acts : ReflTransGen (Act False) s (s.mergeJob job) := acts_mergeJob orderly waits
      have fewer := tableCount_mergeJob_lt orderly booked filled waits
      have later := ih (orderly.acts acts) (booked.acts orderly acts) (filled.acts orderly acts)
      simp only [drainUpTo, queue]
      omega

/-- The calls by which the queue merges a job. -/
def mergeCalls (s : Site R) (job : Job R) : List (Call R) :=
  [.elsewhere (s.mergeOutput job).2.ids (s.mergeOutput job).2.shelf s.clock,
    .completeJob job.id [(s.mergeOutput job).1]]

theorem run_mergeCalls {job : Job R} {rest : List (Job R)}
    (first : s.compactor.waiting = job :: rest) :
    s.run (s.mergeCalls job) = s.mergeJob job ∧ 1 ≤ (s.merges (s.mergeCalls job)).length := by
  have found : (s.mergeOutput job).2.job? job.id = some job := by
    rw [job?]
    show s.compactor.waiting.find? (·.id == job.id) = some job
    simp [first]
  have made : s.elsewhere (s.mergeOutput job).2.ids (s.mergeOutput job).2.shelf s.clock =
      (s.mergeOutput job).2 := rfl
  constructor
  · simp only [mergeCalls, run, List.foldl_cons, List.foldl_nil, perform, made, onJob, found]
    rfl
  · simp only [mergeCalls, merges, mergesBy, perform, made, found, List.nil_append]
    exact Nat.succ_le_succ (Nat.zero_le _)

theorem merges_append (s : Site R) (calls more : List (Call R)) :
    s.merges (calls ++ more) = s.merges calls ++ (s.run calls).merges more := by
  induction calls generalizing s with
  | nil => rfl
  | cons call rest ih => simp only [List.cons_append, merges, ih, List.append_assoc]; rfl

/-- Draining the queue is a run like others. -/
theorem Drains.run (drains : Drains s n t) : ∃ more, s.run more = t ∧
    (∀ least, ∀ call ∈ more, call.mergesToOne least = true) ∧ n ≤ (s.merges more).length := by
  induction drains with
  | done none => exact ⟨[], rfl, fun _ => List.forall_mem_nil _, Nat.le_refl _⟩
  | @next s t job rest n first others ih =>
    obtain ⟨more, ends, one, enough⟩ := ih
    obtain ⟨merged, counted⟩ := run_mergeCalls first
    refine ⟨s.mergeCalls job ++ more, ?_, fun least => ?_, ?_⟩
    · rw [Site.run, List.foldl_append]
      exact (congrArg (List.foldl perform · more) merged).trans ends
    · refine List.forall_mem_append.2 ⟨?_, one least⟩
      exact List.forall_mem_cons.2 ⟨rfl, List.forall_mem_singleton.2 rfl⟩
    · rw [merges_append, merged, List.length_append]
      omega

/-- A queue that merges jobs reports no more merges than flushes pay for. -/
theorem run_bounded (s : Site R) (o : Opening R) {calls : List (Call R)} (positive : 0 < least)
    (bounded : least ≤ o.thresholds.least)
    (one : ∀ call ∈ calls, call.mergesToOne least = true) :
    ((s.opened o).merges calls).length * (least - 1) + ((s.opened o).run calls).tableCount ≤
      ((s.opened o).admitted calls).length := by
  have orderly := s.orderly_opened o
  have course : Course False least (s.opened o) ((s.opened o).admitted calls)
      ((s.opened o).merges calls) ((s.opened o).run calls) :=
    course_run orderly (fun call member => Call.viaJobs_of_mergesToOne (one call member))
      False.elim fun t member => of_decide_eq_true (one _ member)
  have within := course.bounded orderly (s.booked_opened o) positive bounded (s.filled_opened o)
    (outputs_merges one)
  rwa [show (s.opened o).tableCount = 0 from rfl, Nat.zero_add] at within

/-- Whatever is called in whatever order, the chain of passes that a call starts is not cut off, and
leaves no more tables than it finds. Draining the queue ends with no job waiting and is itself a
run. It leaves no more tables than it finds if no direct report was about tables of waiting jobs. And
as long as merges are reported through jobs and give one table each, flushes bound their number. -/
theorem run_merging_settles (s : Site R) (o : Opening R) (calls : List (Call R)) :
    let t := (s.opened o).run calls
    (∀ call u, t.begins call = some u →
      Passes u u.passMerges.length (t.perform call) ∧
        ∀ limit, (u.mergesUpTo limit).length * (u.compactor.thresholds.least - 1) +
          (u.passUpTo limit).1.tableCount ≤ u.tableCount) ∧
    (Drains t t.drain.2 t.drain.1 ∧ ∃ more, t.run more = t.drain.1 ∧
      (∀ least, ∀ call ∈ more, call.mergesToOne least = true) ∧
        t.drain.2 ≤ (t.merges more).length) ∧
    ((s.opened o).undisturbed calls = true → ∀ limit,
      (t.drainUpTo mergeJob limit).2 + (t.drainUpTo mergeJob limit).1.tableCount ≤
        t.tableCount) ∧
    ∀ least, 0 < least → least ≤ o.thresholds.least →
      (∀ call ∈ calls, call.mergesToOne least = true) →
      ((s.opened o).merges calls).length * (least - 1) + t.tableCount ≤
        ((s.opened o).admitted calls).length := by
  intro t
  have opened := s.orderly_opened o
  have acts : ReflTransGen (Act True) (s.opened o) t := acts_run_any opened calls
  have orderly : t.Orderly := opened.acts acts
  have drains := drains_drain orderly
  refine ⟨fun call u begins => ?_, ⟨drains, drains.run⟩, fun undisturbed => ?_,
    fun least positive bounded one => run_bounded s o positive bounded one⟩
  · obtain ⟨started, performed⟩ := of_begins begins
    have orderly := orderly.acts started
    rw [performed]
    exact ⟨passes_pass orderly, fun limit => (chain_passUpTo orderly limit).tableCount_le⟩
  · exact tableCount_drainUpTo_le orderly ((s.booked_opened o).run opened undisturbed)
      ((s.filled_opened o).acts opened acts)

/-- Direct reports of tables that no job holds, while one waits, do no harm. -/
theorem direct_report_settles :
    let calls : List (Call Float) :=
      [.flush (Table.samples [1, 2, 3, 4, 5, 6]), .setThresholds ⟨2, 3, by decide, by decide⟩,
        .enable, .flush (Table.samples [7, 8]), .completeJob 0 (Table.samples [9]),
        .failJob 1 .cancelled, .setIntake .merge, .flush (Table.samples [11])]
    let reported : Call Float := .complete ⟨0⟩ (Table.samples [10]) ⟨5⟩ (Table.samples [12, 13])
    let s := sample.opened (.sample .keep)
    let t := s.run (calls ++ [reported])
    (s.merges calls).length = 3 ∧ (s.admitted calls).length = 9 ∧ t.compactor.waiting ≠ [] ∧
      t.drain.2 + t.drain.1.tableCount ≤ t.tableCount ∧
      (s.merges calls).length * (2 - 1) + (s.run calls).tableCount ≤ (s.admitted calls).length := by
  intro calls reported s t
  have drained := (run_merging_settles sample (.sample .keep) (calls ++ [reported])).2.2.1
    (by decide +kernel)
  have bounded := (run_merging_settles sample (.sample .keep) calls).2.2.2 2 (by decide)
    (by decide) (by decide)
  exact ⟨by decide +kernel, by decide +kernel, by decide +kernel, drained _, bounded⟩

/-- When a merge is reported directly of tables that jobs hold, the outputs of these jobs add to the
tables, and draining the queue leaves more of them than the flush before it. -/
theorem drain_adds_tables :
    let small := Table.samples [1, 2]
    let sized (size : Nat) (tables : List Table) : List Table :=
      tables.map fun table => { table with size }
    let medium := sized 1000000000 (Table.samples [3, 4])
    let large := sized 1000000000000000 (Table.samples [5, 6])
    let calls : List (Call Float) :=
      [.setThresholds ⟨2, 2, by decide, by decide⟩, .enable, .flush small, .flush medium,
        .complete ⟨0⟩ (small ++ medium) ⟨5⟩ [], .flush large]
    let t := (sample.opened (.sample .keep)).run calls
    t.tableCount = 2 ∧ t.drain.2 = 3 ∧ t.drain.1.tableCount = 3 ∧
      ¬ t.drain.1.tableCount ≤ t.tableCount := by
  decide +kernel

end Site

end TieredCompaction
