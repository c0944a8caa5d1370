import TieredCompaction.Proofs.Site.Reports
/-!
The order in which a compactor records its events. A call first records what it is about, then come
the evaluations that it starts, each with the merges due before the job that it hands over. A queue
that calls back before it returns fits in: handing over is the last thing that an evaluation does,
so that its calls might as well come right after.
-/
namespace TieredCompaction

/-- Whether a report tells that compaction was enabled, or that it was disabled. -/
def Report.switch? : Report → Option Bool
  | enable _ => some true
  | disable _ => some false
  | _ => none

/-- The changes between enabled and disabled that events tell of, in order. -/
def switches (events : List Event) : List Bool :=
  events.filterMap (·.report.switch?)

/-- Whether compaction is enabled after such events. -/
def switchedOn (events : List Event) : Bool :=
  (switches events).getLast?.getD false

theorem switches_append (before after : List Event) :
    switches (before ++ after) = switches before ++ switches after :=
  List.filterMap_append

/-- Switches alternate and begin with one that enables, and all other events come while compaction
is enabled. -/
structure WellFormed (events : List Event) : Prop where
  alternate : (false :: switches events).IsChain (· ≠ ·)
  enabled : ∀ before e after, events = before ++ e :: after →
    (e.report.switch? = some true ↔ switchedOn before = false)

namespace WellFormed

variable {events : List Event} {e : Event}

theorem nil : WellFormed [] where
  alternate := .singleton false
  enabled before _ after empty := by simp at empty

theorem concat (formed : WellFormed events)
    (fits : e.report.switch? = some true ↔ switchedOn events = false) :
    WellFormed (events ++ [e]) where
  alternate := by
    cases told : e.report.switch? with
    | none =>
      have silent : switches [e] = [] := by simp [switches, told]
      rw [switches_append, silent, List.append_nil]
      exact formed.alternate
    | some on =>
      have one : switches [e] = [on] := by simp [switches, told]
      have other : switchedOn events ≠ on := by
        rw [told, Option.some.injEq] at fits
        intro same
        rw [same] at fits
        cases on <;> simp at fits
      rw [switches_append, one, ← List.cons_append]
      refine List.isChain_append.2 ⟨formed.alternate, .singleton on, ?_⟩
      intro last ends next begins
      rw [List.getLast?_cons, Option.mem_some] at ends
      rw [List.head?_cons, Option.mem_some] at begins
      rw [← ends, ← begins]
      exact other
  enabled before other after whole := by
    rcases List.eq_nil_or_concat after with rfl | ⟨rest, last, rfl⟩
    · obtain ⟨rfl, same⟩ := List.append_inj' whole rfl
      cases same
      exact fits
    · rw [List.concat_eq_append, ← List.cons_append, ← List.append_assoc] at whole
      obtain ⟨same, _⟩ := List.append_inj' whole rfl
      exact formed.enabled before other rest same

end WellFormed

namespace Site

variable {R : Type}

/-- The event of a merge of tables into others, as it ends now. -/
def mergeEvent (s : Site R) (start : Moment) (inputs outputs : List Table) : Event where
  store := s.compactor.store
  report := .compaction start s.clock.moment (inputs.map .ofTable) (outputs.map .ofTable)

variable [Quantity R] {s t u : Site R}

/-- The events of an evaluation, which tell of merges due. -/
def dueEvents (s : Site R) : List Event :=
  (dueTold s.dueAfter s.compactor.lastPending).map fun count =>
    { store := s.compactor.store, report := .pending Options.strategyId count }

/-- The events that a call records before it evaluates the store: what it is about, as far as it
is worth an event. -/
def firstEvents (s : Site R) : Call R → List Event
  | .enable =>
    if s.compactor.enabled then []
    else [{ store := s.compactor.store, report := .enable [s.strategyState] }]
  | .disable =>
    if s.compactor.enabled then
      [{ store := s.compactor.store, report := .disable [Options.strategyId] }]
    else []
  | .flush tables => s.flushReports (s.admits tables)
  | .completeJob id outputs =>
    match s.job? id with
    | some job => s.mergeReports job.startedAt job.tables s.clock.moment (keptOutputs outputs)
    | none => []
  | .complete start inputs stop outputs => s.mergeReports start inputs stop (keptOutputs outputs)
  | _ => []

/-- What a call tells of enabling and disabling by what it returns. -/
def switchBy (s : Site R) : Call R → Option Bool
  | .enable => if s.enable.2 then some true else none
  | .disable => if s.disable.2 then some false else none
  | _ => none

/-- What the calls of a run tell of enabling and disabling by what they return, in order. -/
def switched (s : Site R) : List (Call R) → List Bool
  | [] => []
  | call :: rest => (s.switchBy call).toList ++ (s.perform call).switched rest

/-- The site once a call has done its own work, before it evaluates the store. -/
def changedBy (s : Site R) (call : Call R) : Site R :=
  (s.begins call).getD (s.perform call)

/-- What is recorded and handed over by evaluations at some sites, one after the other. Each takes
place while compaction is enabled, and tells of the merges due before it hands a job over; what a
queue records when it merges that job at once comes before the next evaluation. -/
inductive Evaluated : Site R → List (Site R) → Site R → Prop where
  | nothing {s t : Site R} (events : t.compactor.events = s.compactor.events)
      (submitted : t.compactor.submitted = s.compactor.submitted) : Evaluated s [] t
  | last {s t : Site R} (on : s.compactor.enabled = true)
      (events : t.compactor.events = s.compactor.events ++ s.dueEvents)
      (submitted : t.compactor.submitted = s.compactor.submitted ++ s.evaluate.2.toList) :
      Evaluated s [s] t
  | merge {s t u : Site R} {later job} (on : s.compactor.enabled = true)
      (handed : s.evaluate.2 = some job) (outputs : List Table)
      (events : t.compactor.events =
        s.compactor.events ++ s.dueEvents ++ [s.mergeEvent job.startedAt job.tables outputs])
      (submitted : t.compactor.submitted = s.compactor.submitted ++ [job])
      (rest : Evaluated t later u) : Evaluated s (s :: later) u

/-- A call records its own events first. Then it evaluates the store, if at all. -/
structure Told (s : Site R) (call : Call R) : Prop where
  first : (s.changedBy call).compactor.events = s.compactor.events ++ s.firstEvents call
  kept : (s.changedBy call).compactor.submitted = s.compactor.submitted
  enabled : (s.changedBy call).compactor.enabled = (s.switchBy call).getD s.compactor.enabled
  later : Evaluated (s.changedBy call) (s.passesBy call) (s.perform call)

theorem dueEvents_of_none (none : s.selection = none) : s.dueEvents = s.dueReports := by
  rw [dueEvents, dueAfter_of_none none, dueTold, dueReports]
  split <;> rfl

theorem dueEvents_of_some (distinct : s.compactor.tables.liveIds.Nodup) {chosen : Selection R}
    (some : s.selection = some chosen) : s.dueEvents = (s.take chosen).dueReports := by
  rw [dueEvents, dueAfter_of_some distinct some, dueTold, dueReports]
  change _ = if 0 < (s.take chosen).estimate ∨ 0 < s.compactor.lastPending then _ else _
  split <;> rfl

private theorem mergeReports_handOver (on : s.compactor.enabled = true) (chosen : Selection R)
    (start : Moment) (inputs outputs : List Table) :
    (s.handOver chosen).mergeReports start inputs (s.handOver chosen).clock.moment outputs =
      [s.mergeEvent start inputs outputs] := by
  have clock : (s.handOver chosen).clock = s.clock := by
    rw [handOver, reportPending_eq]
    rfl
  rw [mergeReports, handOver_compactor, clock]
  exact if_pos on

/-- An evaluation whose job is not merged at once, whatever the queue does with the job. -/
private theorem evaluated_handOver (orderly : s.Orderly) (on : s.compactor.enabled = true)
    {chosen : Selection R} (some : s.selection = some chosen)
    (events : t.compactor.events = (s.handOver chosen).compactor.events)
    (submitted : t.compactor.submitted = (s.handOver chosen).compactor.submitted) :
    Evaluated s [s] t := by
  refine .last on ?_ ?_
  · rw [events, handOver_compactor, dueEvents_of_some orderly.tables some]
  · rw [submitted, handOver_compactor, evaluate_of_some orderly.tables some]
    rfl

theorem Chain.evaluated {limit : Nat} (chain : Chain limit s t) :
    Evaluated s (s.passesUpTo limit) t := by
  induction chain with
  | cut => exact .nothing rfl rfl
  | off off =>
    rw [passesUpTo_off off]
    exact .nothing rfl rfl
  | idle on none =>
    rw [passesUpTo_none on none]
    refine .last on ?_ ?_
    · rw [passOver_compactor, dueEvents_of_none none]
    · rw [passOver_compactor, evaluate_of_none none]
      simp
  | keep orderly on some keep =>
    rw [passesUpTo_kept orderly on some (by simp [keep])]
    exact evaluated_handOver orderly on some rfl rfl
  | @drop s limit chosen orderly on some drop =>
    rw [passesUpTo_kept orderly on some (by simp [drop])]
    exact evaluated_handOver orderly on some (by rw [dropJob_compactor])
      (by rw [dropJob_compactor])
  | @merge s t limit chosen orderly on some merge rest ih =>
    rw [passesUpTo_merge orderly on some merge]
    have handed : s.evaluate.2 = Option.some (s.jobOf chosen) := by
      rw [evaluate_of_some orderly.tables some]
    refine .merge on handed
      (keptOutputs [((s.handOver chosen).mergeOutput (s.jobOf chosen)).1]) ?_ ?_ ih
    · rw [settleMerged_compactor, mergeReports_handOver on, handOver_compactor,
        dueEvents_of_some orderly.tables some]
    · rw [settleMerged_compactor, handOver_compactor]

theorem changedBy_flush (s : Site R) (tables : List Table) :
    s.changedBy (.flush tables) = (s.takeIn tables).1 := by
  simp only [changedBy, begins, perform, flush_eq, admits]
  split <;> simp [*]

private theorem changedBy_onJob {call : Call R} {id : Nat} {f : Site R → Job R → Site R}
    (changed : s.changedBy call = s.onJob id f) (first : s.firstEvents call = [])
    (switch : s.switchBy call = none)
    (same : ∀ job, (f s job).compactor.events = s.compactor.events ∧
      (f s job).compactor.submitted = s.compactor.submitted ∧
      (f s job).compactor.enabled = s.compactor.enabled) :
    (s.changedBy call).compactor.events = s.compactor.events ++ s.firstEvents call ∧
      (s.changedBy call).compactor.submitted = s.compactor.submitted ∧
      (s.changedBy call).compactor.enabled = (s.switchBy call).getD s.compactor.enabled := by
  rw [changed, first, switch, List.append_nil, onJob]
  split
  · next job _ => exact same job
  · exact ⟨rfl, rfl, rfl⟩

/-- What a call does by itself. -/
private theorem changed (s : Site R) (call : Call R) :
    (s.changedBy call).compactor.events = s.compactor.events ++ s.firstEvents call ∧
      (s.changedBy call).compactor.submitted = s.compactor.submitted ∧
      (s.changedBy call).compactor.enabled = (s.switchBy call).getD s.compactor.enabled := by
  cases call with
  | enable =>
    cases enabled : s.compactor.enabled with
    | false =>
      simp [changedBy, begins, firstEvents, switchBy, enabled, switchOn_compactor, enable_of_off]
    | true => simp [changedBy, begins, firstEvents, switchBy, enabled, perform, enable_of_on]
  | disable =>
    cases enabled : s.compactor.enabled with
    | false => simp [changedBy, begins, firstEvents, switchBy, enabled, perform, disable_of_off]
    | true =>
      have switched : s.disable.2 = true := by simp [disable, enabled]
      simp [changedBy, begins, firstEvents, switchBy, enabled, perform, disable_compactor, switched]
  | flush tables =>
    rw [changedBy_flush, takeIn_compactor]
    exact ⟨rfl, rfl, rfl⟩
  | completeJob id outputs =>
    cases found : s.job? id with
    | none => simp [changedBy, begins, firstEvents, switchBy, found, perform, onJob]
    | some job => simp [changedBy, begins, firstEvents, switchBy, found, settleJob_compactor]
  | failJob id cause =>
    exact changedBy_onJob (f := fun s job => s.failJob job cause) rfl rfl rfl
      fun job => ⟨rfl, rfl, rfl⟩
  | dropJob id => exact changedBy_onJob (f := dropJob) rfl rfl rfl fun job => ⟨rfl, rfl, rfl⟩
  | complete start inputs stop outputs =>
    simp [changedBy, begins, firstEvents, switchBy, replace_compactor]
  | _ => exact ⟨(List.append_nil _).symm, rfl, rfl⟩

theorem told (orderly : s.Orderly) (call : Call R) : s.Told call := by
  obtain ⟨first, kept, enabled⟩ := s.changed call
  refine ⟨first, kept, enabled, ?_⟩
  cases begins : s.begins call with
  | none =>
    rw [changedBy, passesBy, begins]
    exact .nothing rfl rfl
  | some t =>
    obtain ⟨before, after⟩ := of_begins begins
    have chain : Chain (t.tableCount + 1) t t.pass.1 := chain_passUpTo (orderly.acts before) _
    rw [changedBy, passesBy, begins, after]
    exact chain.evaluated

theorem switches_dueEvents (s : Site R) : switches s.dueEvents = [] := by
  rw [dueEvents, dueTold]
  split <;> rfl

/-- Evaluations neither enable nor disable anything. -/
theorem Evaluated.switches {sites : List (Site R)} (evaluated : Evaluated s sites t) :
    switches t.compactor.events = switches s.compactor.events := by
  induction evaluated with
  | nothing events => rw [events]
  | last on events => rw [events, switches_append, switches_dueEvents, List.append_nil]
  | merge on handed outputs events submitted rest ih =>
    rw [ih, events, switches_append, switches_append, switches_dueEvents, List.append_nil]
    exact List.append_nil _

theorem switches_firstEvents (s : Site R) (call : Call R) :
    switches (s.firstEvents call) = (s.switchBy call).toList := by
  cases call with
  | enable =>
    rw [firstEvents, switchBy, enable]
    split <;> rfl
  | disable =>
    rw [firstEvents, switchBy, disable]
    split <;> rfl
  | flush tables =>
    rw [firstEvents, flushReports]
    split <;> rfl
  | completeJob id outputs =>
    rw [firstEvents]
    split
    · rw [mergeReports]
      split <;> rfl
    · rfl
  | complete start inputs stop outputs =>
    rw [firstEvents, mergeReports]
    split <;> rfl
  | _ => rfl

/-- Enabling and disabling are recorded as often as they are answered with yes. -/
theorem switches_run (orderly : s.Orderly) (calls : List (Call R)) :
    switches (s.run calls).compactor.events =
      switches s.compactor.events ++ s.switched calls := by
  induction calls generalizing s with
  | nil => exact (List.append_nil _).symm
  | cons call rest ih =>
    have told := s.told orderly call
    have acts : Relation.ReflTransGen (Act True) s (s.perform call) :=
      acts_perform orderly call fun _ => trivial
    have later := ih (orderly.acts acts)
    rw [told.later.switches, told.first, switches_append, switches_firstEvents,
      List.append_assoc] at later
    exact later

/-- The events so far are well-formed, and tell whether compaction is enabled. -/
structure Framed (s : Site R) : Prop where
  formed : WellFormed s.compactor.events
  on : switchedOn s.compactor.events = s.compactor.enabled

namespace Framed

omit [Quantity R]

private theorem of_same (framed : s.Framed) (events : t.compactor.events = s.compactor.events)
    (same : t.compactor.enabled = s.compactor.enabled) : t.Framed where
  formed := events ▸ framed.formed
  on := by rw [events, same, framed.on]

/-- An act tells of one thing at most, and of nothing but a switch while compaction is disabled. -/
private theorem of_told (framed : s.Framed) {told : List Event}
    (events : t.compactor.events = s.compactor.events ++ told) (few : told.length ≤ 1)
    (fits : ∀ e ∈ told, e.report.switch? = none ∧ s.compactor.enabled = true)
    (same : t.compactor.enabled = s.compactor.enabled) : t.Framed := by
  match told with
  | [] => exact framed.of_same (events.trans (List.append_nil _)) same
  | [e] =>
    obtain ⟨other, on⟩ := fits e (List.mem_singleton_self e)
    have silent : switches [e] = [] := by
      simp [switches, other]
    constructor
    · rw [events]
      apply framed.formed.concat
      rw [other, framed.on, on]
      simp
    · rw [events, switchedOn, switches_append, silent, List.append_nil, same]
      exact framed.on

/-- A switch changes whether compaction is enabled, and tells so. -/
private theorem of_switch (framed : s.Framed) {e : Event}
    (events : t.compactor.events = s.compactor.events ++ [e])
    (switch : e.report.switch? = some (!s.compactor.enabled))
    (changed : t.compactor.enabled = !s.compactor.enabled) : t.Framed where
  formed := by
    rw [events]
    apply framed.formed.concat
    rw [switch, framed.on]
    cases s.compactor.enabled <;> simp
  on := by
    rw [events, changed, switchedOn, switches_append]
    simp [switches, switch]

private theorem merged (framed : s.Framed) {start stop : Moment} {inputs outputs : List Table}
    (events : t.compactor.events =
      s.compactor.events ++ s.mergeReports start inputs stop outputs)
    (same : t.compactor.enabled = s.compactor.enabled) : t.Framed := by
  rw [mergeReports] at events
  split at events
  · next on =>
    refine framed.of_told events (Nat.le_refl 1) (fun e told => ?_) same
    rw [List.mem_singleton.1 told]
    exact ⟨rfl, on⟩
  · exact framed.of_told events (Nat.zero_le 1) (List.forall_mem_nil _) same

end Framed

private theorem dueReports_fits (on : s.compactor.enabled = true) :
    s.dueReports.length ≤ 1 ∧
      ∀ e ∈ s.dueReports, e.report.switch? = none ∧ s.compactor.enabled = true := by
  rw [dueReports]
  split
  · refine ⟨Nat.le_refl 1, fun e told => ?_⟩
    rw [List.mem_singleton.1 told]
    exact ⟨rfl, on⟩
  · exact ⟨Nat.zero_le 1, List.forall_mem_nil _⟩

theorem Framed.act {direct : Prop} (framed : s.Framed) (act : Act direct s t) : t.Framed := by
  cases act with
  | switchOn off =>
    refine framed.of_switch (congrArg Compactor.events s.switchOn_compactor) ?_ ?_
    · rw [off]
      rfl
    · rw [switchOn_compactor, off]
      rfl
  | switchOff on =>
    refine framed.of_switch (congrArg Compactor.events (disable_compactor on)) ?_ ?_
    · rw [on]
      rfl
    · rw [disable_compactor on, on]
      rfl
  | takeIn tables =>
    have events := congrArg Compactor.events (s.takeIn_compactor tables)
    have same : (s.takeIn tables).1.compactor.enabled = s.compactor.enabled := by
      rw [takeIn_compactor]
    rw [flushReports] at events
    split at events
    · next on =>
      rw [Bool.and_eq_true] at on
      refine framed.of_told events (Nat.le_refl 1) (fun e told => ?_) same
      rw [List.mem_singleton.1 told]
      exact ⟨rfl, on.1⟩
    · exact framed.of_told events (Nat.zero_le 1) (List.forall_mem_nil _) same
  | passOver on none =>
    obtain ⟨few, fits⟩ := dueReports_fits on
    exact framed.of_told (congrArg Compactor.events s.passOver_compactor) few fits
      (by rw [passOver_compactor])
  | @handOver chosen on some =>
    have taken : (s.take chosen).compactor.enabled = true := on
    obtain ⟨few, fits⟩ := dueReports_fits taken
    exact framed.of_told (congrArg Compactor.events (s.handOver_compactor chosen)) few fits
      (by rw [handOver_compactor]; rfl)
  | @settle job waits outputs =>
    have same := s.settleJob_compactor job outputs
    exact framed.merged (congrArg Compactor.events same) (by rw [same])
  | replace allowed start inputs stop outputs =>
    have same := s.replace_compactor start inputs stop outputs
    exact framed.merged (congrArg Compactor.events same) (by rw [same])
  | _ => exact framed.of_same rfl rfl

omit [Quantity R] in
theorem framed_opened (s : Site R) (o : Opening R) : (s.opened o).Framed where
  formed := .nil
  on := rfl

/-- A call after which compaction is disabled evaluates nothing. -/
theorem passesBy_of_off {call : Call R} (off : (s.changedBy call).compactor.enabled = false) :
    s.passesBy call = [] := by
  rw [passesBy]
  cases begins : s.begins call with
  | none => rfl
  | some t =>
    rw [changedBy, begins] at off
    exact passesUpTo_off off _

/-- While compaction is disabled, only enabling it hands a job over. -/
theorem submitted_of_off (orderly : s.Orderly) (off : s.compactor.enabled = false) {call : Call R}
    (other : call ≠ .enable) : (s.perform call).compactor.submitted = s.compactor.submitted := by
  have told := s.told orderly call
  have still : (s.changedBy call).compactor.enabled = false := by
    rw [told.enabled]
    cases call with
    | enable => exact absurd rfl other
    | disable => rw [switchBy, disable_of_off off]; exact off
    | _ => exact off
  have later := told.later
  rw [passesBy_of_off still] at later
  cases later with
  | nothing events submitted => rw [submitted, told.kept]

/-- Whatever is called in whatever order: the events recorded are well-formed, and tell of enabling
and disabling as often as a call is answered with yes. Whatever is called next, its own events come
first, one of a flush that takes a table in and one of a merge if compaction is enabled, and none of
a failure; then come the evaluations that it starts, each with the merges due before the job that it
hands over. While compaction is disabled nothing but enabling it hands a job over. -/
theorem run_stream_well_formed (s : Site R) (o : Opening R) (calls : List (Call R)) :
    let t := (s.opened o).run calls
    WellFormed t.compactor.events ∧
      switches t.compactor.events = (s.opened o).switched calls ∧
      switchedOn t.compactor.events = t.compactor.enabled ∧
      (∀ call, t.Told call) ∧
      (t.compactor.enabled = false → ∀ call ≠ .enable,
        (t.perform call).compactor.submitted = t.compactor.submitted) := by
  intro t
  have opened := s.orderly_opened o
  have orderly : t.Orderly := opened.acts (acts_run_any opened calls)
  have framed : t.Framed :=
    invariant (fun _ framed act => framed.act act) (acts_run_any opened calls) opened
      (s.framed_opened o)
  refine ⟨framed.formed, switches_run opened calls, framed.on, ?_, ?_⟩
  · intro call
    exact told orderly call
  · intro off call other
    exact submitted_of_off orderly off other

/-- Two merges at once: each pass tells of the merges due before it hands a job over, and the second
one comes after the event of the first merge. The answers of the four calls that switch are yes, no,
yes and no. -/
example :
    let large : List Table := (Table.samples [3, 4]).map fun table => { table with size := 10 ^ 9 }
    let calls : List (Call Float) :=
      [.setThresholds ⟨2, 2, by decide, by decide⟩, .flush (Table.samples [1, 2] ++ large),
        .setIntake .merge, .enable, .enable, .disable, .disable, .flush (Table.samples [5])]
    ((sample.opened (.sample .keep)).run calls).compactor.events.map (·.report.kind) =
      ["enable", "pending", "compaction", "pending", "compaction", "disable"] ∧
      (sample.opened (.sample .keep)).switched calls = [true, false] := by
  decide +kernel

end Site

end TieredCompaction
