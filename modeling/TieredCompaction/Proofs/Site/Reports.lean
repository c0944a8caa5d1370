import TieredCompaction.Proofs.Site.Settling
import Mathlib.Data.List.Chain
/-!
Reports of merges due. Each evaluation that leaves merges due reports how many, once; and that none
is due any more is reported once only. The number that a compactor remembers is the one last
reported, whether compaction is enabled or not.
-/
namespace TieredCompaction

/-- The number of merges due that a report tells. -/
def Report.due? : Report → Option Nat
  | pending _ count => some count
  | _ => none

namespace Site

variable {R : Type}

/-- The numbers of merges due that were reported, oldest first. -/
def reportedDue (s : Site R) : List Nat :=
  s.compactor.events.filterMap (·.report.due?)

theorem reportedDue_of_events {s t : Site R} {told : List Event}
    (events : t.compactor.events = s.compactor.events ++ told) :
    t.reportedDue = s.reportedDue ++ told.filterMap (·.report.due?) := by
  rw [reportedDue, events, List.filterMap_append]
  rfl

variable [Quantity R] {s t u : Site R}

/-- How many merges are due once an evaluation has made its choice. -/
def dueAfter (s : Site R) : Nat :=
  s.evaluate.1.estimate

/-- The sites at which a chain of at most `limit` passes evaluates the store, in order. -/
def passesUpTo : Nat → Site R → List (Site R)
  | 0, _ => []
  | limit + 1, s =>
    if s.compactor.enabled then
      s :: match s.evaluate with
        | (_, none) => []
        | (t, some job) =>
          match t.compactor.intake with
          | .keep | .drop => []
          | .merge => passesUpTo limit (t.mergeAtOnce job)
    else []

/-- The sites at which a call evaluates the store. -/
def passesBy (s : Site R) (call : Call R) : List (Site R) :=
  match s.begins call with
  | some t => t.passesUpTo (t.tableCount + 1)
  | none => []

/-- The sites at which a run evaluates the store, in order. -/
def passes (s : Site R) : List (Call R) → List (Site R)
  | [] => []
  | call :: rest => s.passesBy call ++ (s.perform call).passes rest

theorem passesUpTo_off (off : s.compactor.enabled = false) (limit : Nat) :
    s.passesUpTo limit = [] := by
  cases limit <;> simp [passesUpTo, off]

theorem passesUpTo_none (on : s.compactor.enabled = true) (none : s.selection = none)
    (limit : Nat) : s.passesUpTo (limit + 1) = [s] := by
  simp only [passesUpTo, on, if_true, evaluate_of_none none]

theorem passesUpTo_kept (orderly : s.Orderly) (on : s.compactor.enabled = true)
    {chosen : Selection R} (some : s.selection = some chosen) (kept : s.compactor.intake ≠ .merge)
    (limit : Nat) : s.passesUpTo (limit + 1) = [s] := by
  have submits := submits orderly some
  simp only [passesUpTo, on, if_true, submits.evaluate, submits.intake]
  cases intake : s.compactor.intake with
  | merge => exact absurd intake kept
  | _ => rfl

theorem passesUpTo_merge (orderly : s.Orderly) (on : s.compactor.enabled = true)
    {chosen : Selection R} (some : s.selection = some chosen) (merge : s.compactor.intake = .merge)
    (limit : Nat) : s.passesUpTo (limit + 1) =
      s :: ((s.handOver chosen).settleMerged (s.jobOf chosen)).passesUpTo limit := by
  have submits := submits orderly some
  simp only [passesUpTo, on, if_true, submits.evaluate, submits.intake, merge, submits.merge]

section Silence

omit [Quantity R]

/-- Reports of flushes and merges tell nothing about merges due. -/
theorem reportedDue_takeIn (s : Site R) (tables : List Table) :
    (s.takeIn tables).1.reportedDue = s.reportedDue := by
  rw [reportedDue_of_events (congrArg Compactor.events (s.takeIn_compactor tables)), flushReports]
  split <;> simp [Report.due?]

private theorem due?_mergeReports (s : Site R) (start : Moment) (inputs : List Table)
    (stop : Moment) (outputs : List Table) :
    (s.mergeReports start inputs stop outputs).filterMap (·.report.due?) = [] := by
  rw [mergeReports]
  split <;> rfl

theorem reportedDue_replace (s : Site R) (start : Moment) (inputs : List Table) (stop : Moment)
    (outputs : List Table) : (s.replace start inputs stop outputs).reportedDue = s.reportedDue := by
  have after := congrArg Compactor.events (s.replace_compactor start inputs stop outputs)
  rw [reportedDue_of_events after, due?_mergeReports, List.append_nil]

theorem reportedDue_settleJob (s : Site R) (job : Job R) (outputs : List Table) :
    (s.settleJob job outputs).reportedDue = s.reportedDue :=
  reportedDue_replace _ _ _ _ _

theorem reportedDue_dropJob (s : Site R) (job : Job R) :
    (s.dropJob job).reportedDue = s.reportedDue := rfl

theorem reportedDue_disable (s : Site R) : s.disable.1.reportedDue = s.reportedDue := by
  cases enabled : s.compactor.enabled with
  | false => rw [disable_of_off enabled]
  | true =>
    rw [reportedDue_of_events (congrArg Compactor.events (disable_compactor enabled))]
    simp [Report.due?]

end Silence

theorem reportedDue_settleMerged (s : Site R) (job : Job R) :
    (s.settleMerged job).reportedDue = s.reportedDue :=
  reportedDue_settleJob _ _ _

theorem reportedDue_switchOn (s : Site R) : s.switchOn.reportedDue = s.reportedDue := by
  rw [reportedDue_of_events (congrArg Compactor.events s.switchOn_compactor)]
  simp [Report.due?]

/-- What one evaluation reports. -/
theorem evaluate_reports (distinct : s.compactor.tables.liveIds.Nodup) :
    s.evaluate.1.compactor.events = s.compactor.events ++
      if 0 < s.dueAfter ∨ 0 < s.compactor.lastPending then
        [{ store := s.compactor.store, report := .pending Options.strategyId s.dueAfter }]
      else [] := by
  cases selected : s.selection with
  | none =>
    rw [dueAfter, evaluate_of_none selected, estimate_passOver, passOver_compactor]
    rfl
  | some chosen =>
    rw [dueAfter, evaluate_of_some distinct selected]
    simp only [reportPending_eq]
    rfl

/-- The numbers of merges due in what an evaluation reports that leaves `due` of them. -/
def dueTold (due before : Nat) : List Nat :=
  if 0 < due ∨ 0 < before then [due] else []

theorem reportedDue_passOver (s : Site R) :
    s.passOver.reportedDue =
      s.reportedDue ++ dueTold s.estimate s.compactor.lastPending := by
  rw [reportedDue_of_events (congrArg Compactor.events s.passOver_compactor), dueReports, dueTold]
  split <;> rfl

theorem reportedDue_handOver (s : Site R) (chosen : Selection R) :
    (s.handOver chosen).reportedDue =
      s.reportedDue ++ dueTold (s.take chosen).estimate s.compactor.lastPending := by
  rw [reportedDue_of_events (congrArg Compactor.events (s.handOver_compactor chosen)), dueReports,
    dueTold]
  change _ ++ (if 0 < (s.take chosen).estimate ∨ 0 < s.compactor.lastPending then _ else _ :
    List Event).filterMap _ = _
  split <;> rfl

/-- The number remembered is the one last reported, and no zero is reported first or right behind
another. -/
structure Reported (s : Site R) : Prop where
  last : s.compactor.lastPending = s.reportedDue.getLast?.getD 0
  apart : (0 :: s.reportedDue).IsChain fun before next => before = 0 → next ≠ 0

namespace Reported

omit [Quantity R] in
private theorem of_silent (reported : s.Reported) (silent : t.reportedDue = s.reportedDue)
    (last : t.compactor.lastPending = s.compactor.lastPending) : t.Reported := by
  obtain ⟨now, apart⟩ := reported
  exact ⟨by rw [last, silent, now], by rw [silent]; exact apart⟩

omit [Quantity R] in
/-- A zero is told only where the last number told was another one. -/
private theorem of_told (reported : s.Reported)
    (told : t.reportedDue = s.reportedDue ++ dueTold t.compactor.lastPending s.compactor.lastPending) :
    t.Reported := by
  obtain ⟨now, apart⟩ := reported
  rw [dueTold] at told
  split at told
  · next due =>
    refine ⟨by simp [told], ?_⟩
    rw [told, ← List.cons_append]
    refine List.isChain_append.2 ⟨apart, .singleton _, ?_⟩
    rw [List.getLast?_cons, ← now]
    intro before last next first zero
    rw [Option.mem_some] at last
    rw [List.head?_cons, Option.mem_some] at first
    omega
  · next nothing =>
    rw [List.append_nil] at told
    exact of_silent ⟨now, apart⟩ told (by omega)

theorem act {direct : Prop} (reported : s.Reported) (act : Act direct s t) : t.Reported := by
  cases act with
  | switchOn => exact reported.of_silent s.reportedDue_switchOn rfl
  | switchOff on =>
    exact reported.of_silent s.reportedDue_disable (by rw [disable_compactor on])
  | takeIn tables =>
    exact reported.of_silent (s.reportedDue_takeIn tables) (by rw [takeIn_compactor])
  | passOver => exact reported.of_told (by rw [reportedDue_passOver, passOver_compactor])
  | @handOver chosen =>
    exact reported.of_told (by rw [reportedDue_handOver, handOver_compactor])
  | settle =>
    exact reported.of_silent (reportedDue_settleJob s _ _) (by rw [settleJob_compactor])
  | replace =>
    exact reported.of_silent (reportedDue_replace s _ _ _ _) (by rw [replace_compactor])
  | _ => exact reported.of_silent rfl rfl

end Reported

/-- The numbers of merges due that evaluations leave, as far as some are left. -/
def leftDue (passes : List (Site R)) : List Nat :=
  (passes.map dueAfter).filter (· ≠ 0)

theorem leftDue_append (us vs : List (Site R)) : leftDue (us ++ vs) = leftDue us ++ leftDue vs := by
  simp [leftDue]

/-- A number that an evaluation leaves is told, unless it is zero. -/
private theorem filter_dueTold (s : Site R) :
    (dueTold s.dueAfter s.compactor.lastPending).filter (· ≠ 0) = leftDue [s] := by
  rw [dueTold, leftDue]
  split
  · rfl
  · next nothing =>
    have zero : s.dueAfter = 0 := by omega
    simp [zero]

theorem dueAfter_of_none (none : s.selection = none) : s.dueAfter = s.estimate := by
  rw [dueAfter, evaluate_of_none none, estimate_passOver]

theorem dueAfter_of_some (distinct : s.compactor.tables.liveIds.Nodup) {chosen : Selection R}
    (some : s.selection = some chosen) : s.dueAfter = (s.take chosen).estimate := by
  rw [dueAfter, evaluate_of_some distinct some]
  simp only [reportPending_eq]
  rfl

private theorem filter_handOver (orderly : s.Orderly) {chosen : Selection R}
    (some : s.selection = some chosen) :
    (s.handOver chosen).reportedDue.filter (· ≠ 0) =
      s.reportedDue.filter (· ≠ 0) ++ leftDue [s] := by
  rw [reportedDue_handOver, ← dueAfter_of_some orderly.tables some, List.filter_append,
    filter_dueTold]

/-- Along a chain of passes the numbers reported are those that its evaluations leave. -/
theorem Chain.reportedDue {limit : Nat} (chain : Chain limit s t) :
    t.reportedDue.filter (· ≠ 0) =
      s.reportedDue.filter (· ≠ 0) ++ leftDue (s.passesUpTo limit) := by
  induction chain with
  | cut => simp [passesUpTo, leftDue]
  | off off => simp [passesUpTo_off off, leftDue]
  | idle on none =>
    rw [passesUpTo_none on none, reportedDue_passOver, ← dueAfter_of_none none, List.filter_append,
      filter_dueTold]
  | keep orderly on some keep =>
    rw [passesUpTo_kept orderly on some (by simp [keep]), filter_handOver orderly some]
  | @drop s limit chosen orderly on some drop =>
    rw [passesUpTo_kept orderly on some (by simp [drop]), reportedDue_dropJob,
      filter_handOver orderly some]
  | @merge s t limit chosen orderly on some merge rest ih =>
    rw [passesUpTo_merge orderly on some merge, ih, reportedDue_settleMerged,
      filter_handOver orderly some, List.append_assoc, ← leftDue_append, List.singleton_append]

/-- What a call does before it evaluates the store reports no merges due. -/
theorem reportedDue_begins {call : Call R} (begins : s.begins call = some t) :
    t.reportedDue = s.reportedDue := by
  cases (begun_of_begins begins).1 with
  | nothing => rfl
  | switchOn => exact s.reportedDue_switchOn
  | takeIn tables => exact s.reportedDue_takeIn tables
  | @settle job _ outputs => exact s.reportedDue_settleJob job outputs
  | replace start inputs stop outputs => exact s.reportedDue_replace start inputs stop outputs

/-- A call that does not evaluate the store reports no merges due. -/
theorem reportedDue_of_begins_none {call : Call R} (none : s.begins call = none) :
    (s.perform call).reportedDue = s.reportedDue := by
  cases call with
  | enable =>
    cases enabled : s.compactor.enabled with
    | false => simp [Site.begins, enabled] at none
    | true => rw [perform, enable_of_on enabled]
  | disable => exact s.reportedDue_disable
  | flush tables =>
    have nothing : (TableSet.added (s.compactor.tables.receive tables).2).isEmpty = true := by
      simpa [Site.begins, admits] using none
    rw [perform, flush_eq, if_pos nothing, reportedDue_takeIn]
  | completeJob id outputs =>
    have unknown : s.job? id = .none := Option.map_eq_none_iff.1 none
    rw [perform, onJob, unknown]
  | failJob id cause =>
    rw [perform, onJob]
    split <;> rfl
  | dropJob id =>
    rw [perform, onJob]
    split <;> rfl
  | evaluate => contradiction
  | complete => contradiction
  | _ => rfl

theorem reportedDue_perform (orderly : s.Orderly) (call : Call R) :
    (s.perform call).reportedDue.filter (· ≠ 0) =
      s.reportedDue.filter (· ≠ 0) ++ leftDue (s.passesBy call) := by
  cases begins : s.begins call with
  | none => simp [reportedDue_of_begins_none begins, passesBy, begins, leftDue]
  | some t =>
    obtain ⟨before, after⟩ := of_begins begins
    have chain : Chain (t.tableCount + 1) t t.pass.1 := chain_passUpTo (orderly.acts before) _
    rw [after, chain.reportedDue, reportedDue_begins begins, passesBy, begins]

theorem reportedDue_run (orderly : s.Orderly) (calls : List (Call R)) :
    (s.run calls).reportedDue.filter (· ≠ 0) =
      s.reportedDue.filter (· ≠ 0) ++ leftDue (s.passes calls) := by
  induction calls generalizing s with
  | nil => simp [run, passes, leftDue]
  | cons call rest ih =>
    have acts : Relation.ReflTransGen (Act True) s (s.perform call) :=
      acts_perform orderly call fun _ => trivial
    have later := ih (orderly.acts acts)
    rw [reportedDue_perform orderly call, List.append_assoc, ← leftDue_append] at later
    exact later

/-- Each evaluation of a chain takes place while compaction is enabled. -/
theorem on_of_mem_passesUpTo (orderly : s.Orderly) {limit : Nat} (evaluated : u ∈ s.passesUpTo limit) :
    u.compactor.enabled = true ∧ Relation.ReflTransGen (Act True) s u := by
  induction limit generalizing s with
  | zero => exact absurd evaluated List.not_mem_nil
  | succ limit ih =>
    cases enabled : s.compactor.enabled with
    | false =>
      rw [passesUpTo_off enabled] at evaluated
      exact absurd evaluated List.not_mem_nil
    | true =>
      have first (alone : s.passesUpTo (limit + 1) = [s]) :
          u.compactor.enabled = true ∧ Relation.ReflTransGen (Act True) s u := by
        rw [alone, List.mem_singleton] at evaluated
        rw [evaluated]
        exact ⟨enabled, .refl⟩
      cases selected : s.selection with
      | none => exact first (passesUpTo_none enabled selected limit)
      | some chosen =>
        by_cases merge : s.compactor.intake = .merge
        · have merged : Relation.ReflTransGen (Act True) s _ := acts_merged enabled selected
          rw [passesUpTo_merge orderly enabled selected merge] at evaluated
          rcases List.mem_cons.1 evaluated with rfl | later
          · exact ⟨enabled, .refl⟩
          · obtain ⟨on, acts⟩ := ih (orderly.acts merged) later
            exact ⟨on, merged.trans acts⟩
        · exact first (passesUpTo_kept orderly enabled selected merge limit)

theorem on_of_mem_passes (orderly : s.Orderly) {calls : List (Call R)}
    (evaluated : u ∈ s.passes calls) :
    u.compactor.enabled = true ∧ Relation.ReflTransGen (Act True) s u := by
  induction calls generalizing s with
  | nil => exact absurd evaluated List.not_mem_nil
  | cons call rest ih =>
    rcases List.mem_append.1 evaluated with now | later
    · rw [passesBy] at now
      split at now
      · next t begins =>
        obtain ⟨before, _⟩ := of_begins begins
        obtain ⟨on, acts⟩ := on_of_mem_passesUpTo (orderly.acts before) now
        exact ⟨on, before.trans acts⟩
      · exact absurd now List.not_mem_nil
    · have performed : Relation.ReflTransGen (Act True) s (s.perform call) :=
        acts_perform orderly call fun _ => trivial
      obtain ⟨on, acts⟩ := ih (orderly.acts performed) later
      exact ⟨on, performed.trans acts⟩

/-- Whatever is called in whatever order: no zero is reported first or right behind another, the
number remembered is the one last reported, and the numbers reported other than zero are those that
the evaluations leave, in order. Each evaluation that leaves merges due adds one report of them. How
many are due is a sum over the buckets of tables not in flight (`Options.estimate_eq_sum`). -/
theorem run_reports_due (s : Site R) (o : Opening R) (calls : List (Call R)) :
    let t := (s.opened o).run calls
    let passes := (s.opened o).passes calls
    (∀ n ∈ t.reportedDue.head?, n ≠ 0) ∧
      t.reportedDue.IsChain (fun before next => before = 0 → next ≠ 0) ∧
      t.compactor.lastPending = t.reportedDue.getLast?.getD 0 ∧
      t.reportedDue.filter (· ≠ 0) = (passes.map dueAfter).filter (· ≠ 0) ∧
      ∀ u ∈ passes, u.compactor.enabled = true ∧ (u.dueAfter ≠ 0 →
        u.evaluate.1.compactor.events = u.compactor.events ++
          [{ store := u.compactor.store
             report := .pending Options.strategyId u.dueAfter }]) := by
  intro t passes
  have orderly := s.orderly_opened o
  have reported : t.Reported :=
    invariant (fun _ reported act => reported.act act) (acts_run_any orderly calls) orderly
      ⟨rfl, .singleton 0⟩
  obtain ⟨first, apart⟩ := List.isChain_cons.1 reported.apart
  refine ⟨fun n head => first n head rfl, apart, reported.last, ?_, fun u evaluated => ?_⟩
  · exact reportedDue_run orderly calls
  · obtain ⟨on, acts⟩ := on_of_mem_passes orderly evaluated
    refine ⟨on, fun due => ?_⟩
    rw [evaluate_reports (orderly.acts acts).tables, if_pos (.inl (Nat.pos_of_ne_zero due))]

/-- Two buckets wait for a merge each; merging the first one at once leaves the second one, and then
none, of which a later evaluation says nothing. -/
example :
    let large : List Table := (Table.samples [3, 4]).map fun table => { table with size := 10 ^ 9 }
    let calls : List (Call Float) :=
      [.setThresholds ⟨2, 2, by decide, by decide⟩, .flush (Table.samples [1, 2] ++ large),
        .setIntake .merge, .enable, .evaluate]
    ((sample.opened (.sample .keep)).run calls).reportedDue = [1, 0] ∧
      ((sample.opened (.sample .keep)).passes calls).map dueAfter = [1, 0, 0, 0] := by
  decide +kernel

end Site

end TieredCompaction
