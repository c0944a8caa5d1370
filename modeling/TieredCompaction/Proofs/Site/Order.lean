import TieredCompaction.Proofs.Site.Pending
/-!
Order does not matter. What is selected, how many merges are due and what is reported when
compaction is enabled depend on which tables are live and how often they are read, and not on the
order in which tables came or are kept.
-/
namespace TieredCompaction

def Report.isMerge : Report → Bool
  | compaction .. => true
  | _ => false

/-- The same tables are handed in, apart from order, repetitions and empty tables, and no two of
them share an ID. -/
structure SameTables (given others : List Table) : Prop where
  same : ∀ t, t.size ≠ 0 → (t ∈ given ↔ t ∈ others)
  own : ∀ t ∈ given, ∀ u ∈ given, t.size ≠ 0 → u.size ≠ 0 → t.id = u.id → t = u

namespace SameTables

variable {given others : List Table}

instance : Decidable (SameTables given others) :=
  decidable_of_iff
    ((∀ t ∈ given, t.size ≠ 0 → t ∈ others) ∧ (∀ t ∈ others, t.size ≠ 0 → t ∈ given) ∧
      ∀ t ∈ given, ∀ u ∈ given, t.size ≠ 0 → u.size ≠ 0 → t.id = u.id → t = u)
    ⟨fun ⟨there, back, own⟩ =>
        ⟨fun t full => ⟨fun given => there t given full, fun other => back t other full⟩, own⟩,
      fun ⟨same, own⟩ =>
        ⟨fun t given full => (same t full).1 given, fun t other full => (same t full).2 other, own⟩⟩

theorem symm (tables : SameTables given others) : SameTables others given where
  same t full := (tables.same t full).symm
  own t ht u hu full positive :=
    tables.own t ((tables.same t full).2 ht) u ((tables.same u positive).2 hu) full positive

theorem perm_live (tables : SameTables given others) :
    (TableSet.empty.receive given).1.live.Perm (TableSet.empty.receive others).1.live := by
  have nodup (ts : List Table) : (TableSet.empty.receive ts).1.live.Nodup :=
    List.Nodup.of_map _ (TableSet.nodup_receive List.nodup_nil)
  refine (List.perm_ext_iff_of_nodup (nodup given) (nodup others)).2 fun t => ?_
  rw [TableSet.mem_live_receive_empty tables.own, TableSet.mem_live_receive_empty tables.symm.own]
  exact ⟨fun ⟨h, full⟩ => ⟨(tables.same t full).1 h, full⟩,
    fun ⟨h, full⟩ => ⟨(tables.same t full).2 h, full⟩⟩

end SameTables

namespace Site

variable {R : Type}

/-- The reports before the first merge. -/
def firstReports (s : Site R) : List Report :=
  (s.compactor.events.map (·.report)).takeWhile (!·.isMerge)

/-- What the first job was about that was handed to the queue. -/
def firstJob (s : Site R) : Option (Selection R) :=
  s.compactor.submitted.head?.map fun job => { tables := job.tables, hotness := job.hotness }

/-- The site with its live tables kept in another order. -/
def reordered (s : Site R) (live : List Table) : Site R :=
  s.setTables { s.compactor.tables with live }

/-- Nothing has been reported, and no job was handed over. -/
structure Silent (s : Site R) : Prop where
  off : s.compactor.enabled = false
  events : s.compactor.events = []
  submitted : s.compactor.submitted = []
  pending : s.compactor.lastPending = 0

variable [Quantity R] {s t u : Site R}

/-- The same tables with the same rates and the same settings. -/
structure Alike (s t : Site R) : Prop where
  options : s.compactor.options = t.compactor.options
  thresholds : s.compactor.thresholds = t.compactor.thresholds
  distinct : s.compactor.tables.liveIds.Nodup
  live : s.compactor.tables.live.Perm t.compactor.tables.live
  hidden : ∀ id, id ∈ s.compactor.tables.hidden ↔ id ∈ t.compactor.tables.hidden
  rates : ∀ x ∈ s.compactor.tables.live, s.hotness x = t.hotness x

namespace Alike

theorem candidates (alike : Alike s t) : s.candidates = t.candidates :=
  TableSet.candidates_eq_of_perm alike.distinct alike.live alike.hidden

theorem buckets (alike : Alike s t) : s.buckets = t.buckets := by
  rw [Site.buckets, Site.buckets, alike.options, alike.candidates]

theorem estimate (alike : Alike s t) : s.estimate = t.estimate := by
  rw [Site.estimate, Site.estimate, alike.options, alike.thresholds, alike.candidates]

theorem selection (alike : Alike s t) : s.selection = t.selection := by
  rw [Site.selection, Site.selection, alike.options, alike.thresholds, ← alike.candidates]
  exact Options.select_congr fun x member => alike.rates x (candidates_subset member).1

theorem strategyState (alike : Alike s t) : s.strategyState = t.strategyState := by
  rw [Site.strategyState, Site.strategyState, alike.options, alike.buckets,
    TableSet.byId_eq_of_perm alike.distinct alike.live]

theorem take (alike : Alike s t) (chosen : Selection R) :
    Alike (s.take chosen) (t.take chosen) where
  options := alike.options
  thresholds := alike.thresholds
  distinct := alike.distinct
  live := alike.live
  hidden id := by
    simp only [Site.take, List.mem_append, alike.hidden id]
  rates := alike.rates

end Alike

/-- What enabling compaction reports before the first merge. -/
def announcement (s : Site R) : List Report :=
  let due := match s.selection with
    | none => 0
    | some chosen => (s.take chosen).estimate
  .enable [s.strategyState] :: if 0 < due then [.pending Options.strategyId due] else []

/-- How many merges are due once compaction is enabled: if the queue merges jobs at once, none. -/
def estimateOnceEnabled (s : Site R) : Nat :=
  match s.selection, s.compactor.intake with
  | none, _ | some _, .drop => s.estimate
  | some chosen, .keep => (s.take chosen).estimate
  | some _, .merge => 0

theorem Alike.announcement (alike : Alike s t) : s.announcement = t.announcement := by
  rw [Site.announcement, Site.announcement, alike.strategyState, alike.selection]
  cases t.selection with
  | none => rfl
  | some chosen => simp only [(alike.take chosen).estimate]

theorem Alike.estimateOnceEnabled (alike : Alike s t)
    (intake : s.compactor.intake = t.compactor.intake) :
    s.estimateOnceEnabled = t.estimateOnceEnabled := by
  rw [Site.estimateOnceEnabled, Site.estimateOnceEnabled, alike.selection, alike.estimate, intake]
  cases t.selection with
  | none => rfl
  | some chosen =>
    cases t.compactor.intake with
    | keep => exact (alike.take chosen).estimate
    | drop => rfl
    | merge => rfl

/-- Nothing that was reported is taken back, and no job that was handed over. -/
structure Grows (s t : Site R) : Prop where
  events : s.compactor.events <+: t.compactor.events
  submitted : s.compactor.submitted <+: t.compactor.submitted

omit [Quantity R] in
private theorem grows_of_compactor {c : Compactor R} (same : t.compactor = c)
    (events : s.compactor.events <+: c.events) (submitted : s.compactor.submitted <+: c.submitted) :
    Grows s t :=
  ⟨same.symm ▸ events, same.symm ▸ submitted⟩

theorem grows_act {direct : Prop} (act : Act direct s t) : Grows s t := by
  cases act with
  | switchOn =>
    exact grows_of_compactor s.switchOn_compactor (List.prefix_append _ _) List.prefix_rfl
  | switchOff on =>
    exact grows_of_compactor (disable_compactor on) (List.prefix_append _ _) List.prefix_rfl
  | takeIn tables =>
    exact grows_of_compactor (s.takeIn_compactor tables) (List.prefix_append _ _) List.prefix_rfl
  | passOver =>
    exact grows_of_compactor s.passOver_compactor (List.prefix_append _ _) List.prefix_rfl
  | handOver =>
    exact grows_of_compactor (s.handOver_compactor _) (List.prefix_append _ _)
      (List.prefix_append _ _)
  | settle =>
    exact grows_of_compactor (s.settleJob_compactor _ _) (List.prefix_append _ _) List.prefix_rfl
  | replace =>
    exact grows_of_compactor (s.replace_compactor _ _ _ _) (List.prefix_append _ _)
      List.prefix_rfl
  | _ => exact ⟨List.prefix_rfl, List.prefix_rfl⟩

theorem grows_acts {direct : Prop} (acts : Relation.ReflTransGen (Act direct) s t) : Grows s t := by
  induction acts with
  | refl => exact ⟨List.prefix_rfl, List.prefix_rfl⟩
  | tail _ act ih =>
    have next := grows_act act
    exact ⟨ih.events.trans next.events, ih.submitted.trans next.submitted⟩

omit [Quantity R] in
private theorem firstReports_of_events {quiet rest : List Event}
    (events : s.compactor.events = quiet ++ rest) (none : ∀ e ∈ quiet, e.report.isMerge = false)
    (merge : ∀ e ∈ rest.head?, e.report.isMerge = true) :
    s.firstReports = quiet.map (·.report) := by
  have before : ∀ r ∈ quiet.map (·.report), (!r.isMerge) = true := by
    intro r member
    obtain ⟨e, reported, rfl⟩ := List.mem_map.1 member
    rw [none e reported]
    rfl
  rw [firstReports, events, List.map_append, List.takeWhile_append_of_pos before]
  cases rest with
  | nil => simp
  | cons e later =>
    have first := merge e rfl
    simp [first]

/-- A chain of passes at a queue that merges at once ends when no merge is due. -/
theorem Chain.estimate_eq_zero {limit : Nat} (chain : Chain limit s t)
    (on : s.compactor.enabled = true) (merges : s.compactor.intake = .merge)
    (enough : s.tableCount < limit) : t.estimate = 0 := by
  induction chain with
  | cut => exact absurd enough (Nat.not_lt_zero _)
  | off off => exact absurd (off.symm.trans on) Bool.false_ne_true
  | idle _ none => exact (estimate_passOver _).trans (selection_eq_none_iff.1 none)
  | keep _ _ _ keep => exact Intake.noConfusion (keep.symm.trans merges)
  | drop _ _ _ drop => exact Intake.noConfusion (drop.symm.trans merges)
  | merge orderly _ some _ rest ih =>
    have two := two_le_length_selection some
    have fewer := tableCount_merged_add_le orderly some
    refine ih ?_ ?_ (by omega)
    · rw [settleMerged_compactor, handOver_compactor]
      exact on
    · rw [settleMerged_compactor, handOver_compactor]
      exact merges

/-- Once a job is handed over, the first reports are made, and what comes next is a merge. -/
private theorem first_of_handOver (silent : s.Silent) {chosen : Selection R}
    (some : s.selection = some chosen) (rest : List Event)
    (events : t.compactor.events = (s.switchOn.handOver chosen).compactor.events ++ rest)
    (merge : ∀ e ∈ rest.head?, e.report.isMerge = true)
    (submitted : (s.switchOn.handOver chosen).compactor.submitted <+: t.compactor.submitted) :
    t.firstReports = s.announcement ∧ t.firstJob = s.selection := by
  have reported : (s.switchOn.handOver chosen).compactor.events =
      { store := s.compactor.store, report := .enable [s.strategyState] } ::
        (s.switchOn.take chosen).dueReports := by
    rw [handOver_compactor, switchOn_compactor, silent.events]
    rfl
  have due : (s.switchOn.take chosen).dueReports = if 0 < (s.take chosen).estimate then
      [{ store := s.compactor.store
         report := .pending Options.strategyId (s.take chosen).estimate }] else [] := by
    have none : ¬ 0 < (s.switchOn.take chosen).compactor.lastPending := by
      show ¬ 0 < s.compactor.lastPending
      simp [silent.pending]
    rw [dueReports]
    simp only [none, or_false]
    rfl
  constructor
  · rw [firstReports_of_events events ?_ merge, reported, due, announcement, some]
    · by_cases more : 0 < (s.take chosen).estimate <;> simp [more]
    · rw [reported, due]
      by_cases more : 0 < (s.take chosen).estimate <;> simp [more, Report.isMerge]
  · obtain ⟨later, all⟩ := submitted
    rw [handOver_compactor, switchOn_compactor, silent.submitted] at all
    rw [firstJob, ← all, some]
    rfl

private theorem events_settleMerged (on : s.compactor.enabled = true) (job : Job R) :
    ∃ e : Event, (s.settleMerged job).compactor.events = s.compactor.events ++ [e] ∧
      e.report.isMerge = true := by
  rw [settleMerged_compactor, mergeReports, if_pos on]
  exact ⟨_, rfl, rfl⟩

private theorem first_of_chain (silent : s.Silent) {limit : Nat}
    (chain : Chain (limit + 1) s.switchOn t) :
    t.firstReports = s.announcement ∧ t.firstJob = s.selection := by
  have on : s.switchOn.compactor.enabled = true := rfl
  cases chain with
  | off off => exact absurd (off.symm.trans on) Bool.false_ne_true
  | idle _ nothing =>
    have nothing : s.selection = none := nothing
    have due : s.switchOn.dueReports = [] := by
      show (if 0 < s.estimate ∨ 0 < s.compactor.lastPending then _ else _) = _
      simp [selection_eq_none_iff.1 nothing, silent.pending]
    have same := s.switchOn.passOver_compactor
    rw [due, switchOn_compactor, silent.events] at same
    constructor
    · rw [firstReports, same, announcement, nothing]
      simp [Report.isMerge]
    · rw [firstJob, same, silent.submitted, nothing]
      rfl
  | keep _ _ some =>
    exact first_of_handOver silent some [] (List.append_nil _).symm (by simp) List.prefix_rfl
  | @drop _ _ chosen _ _ some =>
    have dropped : Act False (s.switchOn.handOver chosen) _ :=
      .drop (s.switchOn.waits_handOver chosen)
    refine first_of_handOver silent some [] ?_ (by simp) (grows_act dropped).submitted
    rw [dropJob_compactor, List.append_nil]
  | @merge _ _ _ chosen _ _ some _ rest =>
    have merged : Relation.ReflTransGen (Act False) (s.switchOn.handOver chosen) _ :=
      acts_settleMerged (s.switchOn.waits_handOver chosen)
    have later : Relation.ReflTransGen (Act False) _ t := rest.acts
    have enabled : (s.switchOn.handOver chosen).compactor.enabled = true := by
      rw [handOver_compactor]
      exact on
    obtain ⟨e, event, merge⟩ := events_settleMerged enabled (s.switchOn.jobOf chosen)
    obtain ⟨more, all⟩ := (grows_acts later).events
    refine first_of_handOver silent some (e :: more) ?_
      (fun other first => Option.some.inj first ▸ merge)
      ((grows_acts merged).submitted.trans (grows_acts later).submitted)
    rw [← all, event, List.append_assoc, List.singleton_append]

private theorem estimate_of_chain (chain : Chain (s.tableCount + 1) s.switchOn t) :
    t.estimate = s.estimateOnceEnabled := by
  have on : s.switchOn.compactor.enabled = true := rfl
  rw [estimateOnceEnabled]
  cases chain with
  | off off => exact absurd (off.symm.trans on) Bool.false_ne_true
  | idle _ nothing =>
    rw [show s.selection = none from nothing]
    exact s.switchOn.estimate_passOver
  | keep _ _ some keep =>
    rw [show s.selection = _ from some, show s.compactor.intake = _ from keep]
    exact s.switchOn.estimate_handOver _
  | drop _ _ some drop =>
    rw [show s.selection = _ from some, show s.compactor.intake = _ from drop]
    exact estimate_dropJob_handOver some
  | merge orderly _ some merge rest =>
    rw [show s.selection = _ from some, show s.compactor.intake = _ from merge]
    exact (Chain.merge orderly on some merge rest).estimate_eq_zero on merge (Nat.lt_succ_self _)

/-- What enabling compaction does first, and how many merges are due then, follows from the
tables. -/
theorem enable_silent (silent : s.Silent) (orderly : s.Orderly) :
    s.enable.1.firstReports = s.announcement ∧ s.enable.1.firstJob = s.selection ∧
      s.enable.1.estimate = s.estimateOnceEnabled := by
  have switched : Act False s s.switchOn := .switchOn silent.off
  have chain : Chain (s.switchOn.tableCount + 1) s.switchOn s.switchOn.pass.1 :=
    chain_passUpTo (orderly.act switched) _
  rw [enable_of_off silent.off]
  obtain ⟨reports, job⟩ := first_of_chain silent chain
  exact ⟨reports, job, estimate_of_chain chain⟩

/-- While compaction is disabled, a flush does nothing but take tables in. -/
private theorem flush_of_off (off : s.compactor.enabled = false) (tables : List Table) :
    (s.flush tables).compactor =
        { s.compactor with tables := (s.compactor.tables.receive tables).1 } ∧
      (s.flush tables).hotness = s.hotness := by
  have after : (s.takeIn tables).1.compactor =
      { s.compactor with tables := (s.compactor.tables.receive tables).1 } := by
    rw [takeIn_compactor, flushReports, off]
    simp
  have rates : (s.takeIn tables).1.hotness = s.hotness := by
    funext x
    by_cases none : (TableSet.added (s.compactor.tables.receive tables).2).isEmpty <;>
      simp [takeIn, none, off, hotness, setTables, noteAll, note]
  have idle : (s.takeIn tables).1.pass.1 = (s.takeIn tables).1 := by
    rw [pass, passUpTo_off (by rw [after]; exact off)]
  rw [flush_eq, idle, ite_self]
  exact ⟨after, rates⟩

/-- While compaction is disabled, all that counts about flushes is the tables that they bring. -/
theorem run_flushes (off : s.compactor.enabled = false) (batches : List (List Table)) :
    (s.run (batches.map .flush)).compactor =
        { s.compactor with tables := (s.compactor.tables.receive batches.flatten).1 } ∧
      (s.run (batches.map .flush)).hotness = s.hotness := by
  induction batches generalizing s with
  | nil => exact ⟨rfl, rfl⟩
  | cons tables rest ih =>
    obtain ⟨flushed, rates⟩ := flush_of_off off tables
    obtain ⟨after, later⟩ := ih (s := s.flush tables) (by rw [flushed]; exact off)
    rw [flushed] at after
    rw [List.flatten_cons, TableSet.receive_append]
    exact ⟨after, later.trans rates⟩

theorem silent_flushed (s : Site R) (o : Opening R) (batches : List (List Table)) :
    ((s.opened o).run (batches.map .flush)).Silent := by
  have off : (s.opened o).compactor.enabled = false := rfl
  obtain ⟨after, _⟩ := run_flushes off batches
  constructor <;> rw [after] <;> rfl

theorem alike_flushed {s t : Site R} {o p : Opening R} {batches others : List (List Table)}
    (options : o.options = p.options) (thresholds : o.thresholds = p.thresholds)
    (same : SameTables batches.flatten others.flatten)
    (rates : ∀ x ∈ batches.flatten, x.size ≠ 0 → s.hotness x = t.hotness x) :
    Alike ((s.opened o).run (batches.map .flush)) ((t.opened p).run (others.map .flush)) := by
  have offS : (s.opened o).compactor.enabled = false := rfl
  have offT : (t.opened p).compactor.enabled = false := rfl
  obtain ⟨afterS, ratesS⟩ := run_flushes offS batches
  obtain ⟨afterT, ratesT⟩ := run_flushes offT others
  constructor
  · rw [afterS, afterT]
    exact options
  · rw [afterS, afterT]
    exact thresholds
  · rw [afterS]
    exact TableSet.nodup_receive List.nodup_nil
  · rw [afterS, afterT]
    exact same.perm_live
  · rw [afterS, afterT, TableSet.receive_hidden, TableSet.receive_hidden]
    exact fun id => Iff.rfl
  · rw [afterS, ratesS, ratesT]
    intro x live
    obtain ⟨given, full⟩ := (TableSet.mem_live_receive_empty same.own).1 live
    exact rates x given full

/-- Sites with the same tables are alike, in whatever order they keep them. -/
theorem alike_reordered {s t : Site R} (orderly : s.Orderly) (others : t.Orderly)
    (options : s.compactor.options = t.compactor.options)
    (thresholds : s.compactor.thresholds = t.compactor.thresholds)
    (live : ∀ x, x ∈ s.compactor.tables.live ↔ x ∈ t.compactor.tables.live)
    (hidden : ∀ id, id ∈ s.compactor.tables.hidden ↔ id ∈ t.compactor.tables.hidden)
    (rates : ∀ x ∈ s.compactor.tables.live, s.hotness x = t.hotness x) {first second : List Table}
    (kept : first.Perm s.compactor.tables.live) (keptToo : second.Perm t.compactor.tables.live) :
    Alike (s.reordered first) (t.reordered second) where
  options
  thresholds
  distinct := ((kept.map Table.id).nodup_iff).2 orderly.tables
  live := kept.trans (((List.perm_ext_iff_of_nodup (List.Nodup.of_map _ orderly.tables)
    (List.Nodup.of_map _ others.tables)).2 live).trans keptToo.symm)
  hidden
  rates x member := rates x (kept.mem_iff.1 member)

/-- Two compactors with the same options that take in the same tables while disabled, in any order
and any lists, select the same job and report the same when they are enabled. And whenever the same
tables are live and in flight, with the same rates and thresholds, the selection and the number of
merges due are the same, in whatever order tables are kept. -/
theorem runs_agree (s t : Site R) (o p : Opening R) (options : o.options = p.options) :
    (∀ batches others : List (List Table), o.thresholds = p.thresholds →
      SameTables batches.flatten others.flatten →
      (∀ x ∈ batches.flatten, x.size ≠ 0 → s.hotness x = t.hotness x) →
      let u := (s.opened o).run (batches.map .flush)
      let v := (t.opened p).run (others.map .flush)
      u.estimate = v.estimate ∧
      (u.perform .enable).firstReports = (v.perform .enable).firstReports ∧
      (u.perform .enable).firstReports.head? = some (.enable [u.strategyState]) ∧
      (u.perform .enable).firstJob = (v.perform .enable).firstJob ∧
      (u.perform .enable).firstJob = u.selection ∧
      (o.intake = p.intake → (u.perform .enable).estimate = (v.perform .enable).estimate)) ∧
    ∀ calls others : List (Call R),
      let u := (s.opened o).run calls
      let v := (t.opened p).run others
      u.compactor.thresholds = v.compactor.thresholds →
      (∀ x, x ∈ u.compactor.tables.live ↔ x ∈ v.compactor.tables.live) →
      (∀ id, id ∈ u.compactor.tables.hidden ↔ id ∈ v.compactor.tables.hidden) →
      (∀ x ∈ u.compactor.tables.live, u.hotness x = v.hotness x) →
      ∀ first second, first.Perm u.compactor.tables.live → second.Perm v.compactor.tables.live →
        (u.reordered first).selection = (v.reordered second).selection ∧
          (u.reordered first).estimate = (v.reordered second).estimate := by
  constructor
  · intro batches others thresholds same rates u v
    have alike : Alike u v := alike_flushed options thresholds same rates
    have orderlyU : u.Orderly :=
      (s.orderly_opened o).acts (acts_run_any (s.orderly_opened o) _)
    have orderlyV : v.Orderly :=
      (t.orderly_opened p).acts (acts_run_any (t.orderly_opened p) _)
    obtain ⟨reportsU, jobU, dueU⟩ := enable_silent (silent_flushed s o batches) orderlyU
    obtain ⟨reportsV, jobV, dueV⟩ := enable_silent (silent_flushed t p others) orderlyV
    refine ⟨alike.estimate, ?_, ?_, ?_, jobU, fun intake => ?_⟩
    · exact reportsU.trans (alike.announcement.trans reportsV.symm)
    · exact congrArg List.head? reportsU
    · exact jobU.trans (alike.selection.trans jobV.symm)
    · have intakes : u.compactor.intake = v.compactor.intake := by
        rw [(run_flushes rfl batches).1, (run_flushes rfl others).1]
        exact intake
      exact dueU.trans ((alike.estimateOnceEnabled intakes).trans dueV.symm)
  · intro calls others u v thresholds live hidden rates first second kept keptToo
    have orderlyU : u.Orderly :=
      (s.orderly_opened o).acts (acts_run_any (s.orderly_opened o) _)
    have orderlyV : v.Orderly :=
      (t.orderly_opened p).acts (acts_run_any (t.orderly_opened p) _)
    have sameOptions : u.compactor.options = v.compactor.options :=
      (options_run (s.orderly_opened o) calls).trans
        (options.trans (options_run (t.orderly_opened p) others).symm)
    have alike := alike_reordered orderlyU orderlyV sameOptions thresholds live hidden rates kept
      keptToo
    exact ⟨alike.selection, alike.estimate⟩

/-- Tables with three rates come in two orders, repeated and with an empty one under an ID of
theirs; the two that are read most are selected. -/
theorem reversed_flushes_agree :
    let holding (rate : Float) : Holding Float :=
      { meter := (Meter.withWeights 0 0 0).restore (.finite rate) (.finite rate) 0
        retired := false }
    let s := { sample with shelf := ⟨#[holding 1, holding 5, holding 3]⟩ }
    let o := { Opening.sample .keep with thresholds := ⟨2, 2, by decide, by decide⟩ }
    let table (id : Nat) : Table := { id, size := 10, place := id - 1 }
    let empty : Table := { id := 1, size := 0, place := 0 }
    let u := (s.opened o).run ([[table 1, table 2], [empty, table 2, table 3]].map .flush)
    let v := (s.opened o).run ([[table 3, table 3], [], [table 2, empty, table 1]].map .flush)
    u.compactor.tables.liveIds = [1, 2, 3] ∧ v.compactor.tables.liveIds = [3, 2, 1] ∧
      (u.perform .enable).firstJob.map (·.tables.map (·.id)) = some [2, 3] ∧
      (u.perform .enable).firstJob = (v.perform .enable).firstJob ∧
      (u.perform .enable).firstReports = (v.perform .enable).firstReports := by
  intro holding s o table empty u v
  have agree := (runs_agree s s o o rfl).1 [[table 1, table 2], [empty, table 2, table 3]]
    [[table 3, table 3], [], [table 2, empty, table 1]] rfl (by decide) fun _ _ _ => rfl
  exact ⟨by decide +kernel, by decide +kernel, by decide +kernel, agree.2.2.2.1, agree.2.1⟩

end Site

end TieredCompaction
