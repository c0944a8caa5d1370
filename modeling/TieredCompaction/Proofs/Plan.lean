import TieredCompaction.CommandLine.Program
import TieredCompaction.Proofs.Meter.CatchUp
import TieredCompaction.Proofs.Site.Order
import Mathlib.Data.List.Induction
/-!
A plan agrees with a compactor. What the program prints for a list of tables is what a compactor
shows and does to which the same tables were flushed while it was disabled: its buckets, its
estimate, and the tables of the first job once it is enabled.
-/
namespace TieredCompaction

variable {R : Type} [Quantity R]

namespace Plan

/-- What is on the shelf of a plan: the listed tables in their order, with their sizes and with IDs
from zero, and for each of them a meter that was restored at the same instant. -/
structure Shelved (now : Int) (rows : List (TableList.Row R)) (shelf : Shelf R)
    (tables : List Table) : Prop where
  ids : tables.map (·.id) = List.range rows.length
  sizes : tables.map (·.size) = rows.map (·.size)
  placed : ∀ x ∈ tables, x.place < shelf.holdings.size
  metered : ∀ x ∈ tables, ∃ meter, shelf.meter? x = some meter ∧ meter.lastTick = now

theorem shelved_shelve (given : R → GivenRate R) (now : Int) (rows : List (TableList.Row R)) :
    Shelved now rows (shelve given now rows).1 (shelve given now rows).2 := by
  induction rows using List.reverseRecOn with
  | nil => constructor <;> simp [shelve]
  | append_singleton rows row ih =>
    generalize shelved : shelve given now rows = before at ih
    obtain ⟨shelf, tables⟩ := before
    have length : tables.length = rows.length := by
      simpa using congrArg List.length ih.ids
    let meter := (Meter.fresh now).restore (given row.rate) (given row.rate) now
    have after : shelve given now (rows ++ [row]) =
        ((shelf.add tables.length row.size meter).2,
          tables ++ [(shelf.add tables.length row.size meter).1]) := by
      rw [shelve, List.foldl_append, ← shelve, shelved]
      rfl
    rw [after]
    constructor
    case ids => simp [Shelf.add, ih.ids, length, List.range_succ]
    case sizes => simp [Shelf.add, ih.sizes]
    case placed =>
      intro x member
      rcases List.mem_append.1 member with old | new
      · have place := ih.placed x old
        simpa [Shelf.add] using Nat.lt_succ_of_lt place
      · rw [List.mem_singleton.1 new]
        simp [Shelf.add]
    case metered =>
      intro x member
      rcases List.mem_append.1 member with old | new
      · obtain ⟨kept, found, same⟩ := ih.metered x old
        refine ⟨kept, ?_, same⟩
        rw [← found, Shelf.meter?, Shelf.meter?, Shelf.add,
          Array.getElem?_push_lt (ih.placed x old), Array.getElem?_eq_getElem (ih.placed x old)]
      · rw [List.mem_singleton.1 new]
        exact ⟨meter, by simp [Shelf.meter?, Shelf.add], rfl⟩

end Plan

namespace Options

/-- Empty tables are in no bucket. -/
theorem tableBuckets_filter (o : Options R) (tables : List Table) :
    o.tableBuckets (tables.filter (0 < ·.size)) = o.tableBuckets tables := by
  rw [tableBuckets, tableBuckets, buckets, buckets, List.filter_map, List.filter_map,
    List.filter_filter]
  congr 2
  apply List.filter_congr
  intro x _
  by_cases empty : x.size = 0 <;> simp [empty, Nat.pos_iff_ne_zero]

end Options

namespace Site

/-- Once the tables were flushed, in any order and any lists, the candidates are those that are not
empty. -/
theorem candidates_flushed (s : Site R) (p : Opening R) {tables : List Table}
    {batches : List (List Table)} (distinct : (tables.map (·.id)).Nodup)
    (same : ∀ x, x.size ≠ 0 → (x ∈ batches.flatten ↔ x ∈ tables)) :
    ((s.opened p).run (batches.map .flush)).candidates =
      sortBy Table.sizeLe (tables.filter (0 < ·.size)) := by
  have off : (s.opened p).compactor.enabled = false := rfl
  have one : ∀ x ∈ tables, ∀ y ∈ tables, x.id = y.id → x = y :=
    fun _ hx _ hy id => List.inj_on_of_nodup_map distinct hx hy id
  rw [candidates, (run_flushes off batches).1]
  apply TableSet.candidates_eq_sortBy
  · exact TableSet.nodup_receive List.nodup_nil
  · exact distinct.sublist (List.filter_sublist.map _)
  · intro x
    have live : x ∈ (TableSet.empty.receive batches.flatten).1.live ↔
        x ∈ batches.flatten ∧ x.size ≠ 0 := by
      apply TableSet.mem_live_receive_empty
      intro y hy z hz full positive id
      exact one y ((same y full).1 hy) z ((same z positive).1 hz) id
    have free : (TableSet.empty.receive batches.flatten).1.hidden = [] :=
      TableSet.receive_hidden _ _
    rw [TableSet.mem_candidates]
    change x ∈ (TableSet.empty.receive batches.flatten).1.live ∧ _ ∧
      x.id ∉ (TableSet.empty.receive batches.flatten).1.hidden ↔ _
    rw [live, free, List.mem_filter]
    constructor
    · rintro ⟨⟨flushed, full⟩, positive, _⟩
      exact ⟨(same x full).1 flushed, by simpa using positive⟩
    · rintro ⟨listed, positive⟩
      have full : 0 < x.size := by simpa using positive
      exact ⟨⟨(same x (Nat.ne_of_gt full)).2 listed, Nat.ne_of_gt full⟩, full, List.not_mem_nil⟩

/-- A meter tells the same rates until its open interval ends. -/
theorem hotness_of_lastTick {s : Site R} {shelf : Shelf R} {now : Int} {x : Table}
    {meter : Meter R} (held : s.shelf.meter? x = shelf.meter? x)
    (found : shelf.meter? x = some meter) (restored : meter.lastTick = now)
    (soon : s.clock.instant < now + Meter.interval) :
    s.hotness x = shelf.hotness now x := by
  have positive : 0 < Meter.interval := by decide
  have later : meter.catchUp s.clock.instant = meter := by
    apply Meter.catchUp_of_lt
    rw [restored]
    exact soon
  have atOnce : meter.catchUp now = meter := by
    apply Meter.catchUp_of_lt
    omega
  simp only [hotness, Shelf.hotness, held, found, Meter.rate, later, atOnce]

end Site

/-- A plan shows what a disabled compactor shows, and chooses what it will do first once it is
enabled. -/
structure Plan.Agrees (plan : Plan R) (s : Site R) : Prop where
  buckets : plan.buckets = s.buckets
  chosen : plan.chosen = (s.perform .enable).firstJob.map fun job => job.tables.map (·.id)
  due : plan.due = s.estimate

theorem Plan.Shelved.agrees {now : Int} {rows : List (TableList.Row R)} {shelf : Shelf R}
    {tables : List Table} (shelved : Plan.Shelved now rows shelf tables) (s : Site R) (p : Opening R)
    (held : ∀ x ∈ tables, s.shelf.meter? x = shelf.meter? x)
    (soon : s.clock.instant < now + Meter.interval) {batches : List (List Table)}
    (same : ∀ x, x.size ≠ 0 → (x ∈ batches.flatten ↔ x ∈ tables)) :
    (Plan.make p.options p.thresholds shelf now tables).Agrees
      ((s.opened p).run (batches.map .flush)) := by
  have off : (s.opened p).compactor.enabled = false := rfl
  have opened := s.orderly_opened p
  have distinct : (tables.map (·.id)).Nodup := shelved.ids ▸ List.nodup_range
  have silent := Site.silent_flushed s p batches
  have orderly := opened.acts (Site.acts_run_any opened (batches.map .flush))
  have candidates := Site.candidates_flushed s p distinct same
  obtain ⟨compactor, hotness⟩ := Site.run_flushes off batches
  generalize (s.opened p).run (batches.map .flush) = u at *
  have options : u.compactor.options = p.options := by rw [compactor]; rfl
  have thresholds : u.compactor.thresholds = p.thresholds := by rw [compactor]; rfl
  have grouped : p.options.tableBuckets u.candidates =
      p.options.tableBuckets (sortBy Table.sizeLe tables) := by
    rw [candidates, sortBy_filter Table.sizeLe_trans Table.sizeLe_total,
      Options.tableBuckets_filter]
  have selection : u.selection =
      p.options.select p.thresholds (shelf.hotness now) (sortBy Table.sizeLe tables) := by
    rw [Site.selection, options, thresholds, Options.select, grouped, ← Options.select]
    apply Options.select_congr
    intro x sorted
    have listed : x ∈ tables := (perm_sortBy _ _).mem_iff.1 sorted
    obtain ⟨meter, found, restored⟩ := shelved.metered x listed
    rw [hotness]
    exact Site.hotness_of_lastTick (s := s.opened p) (held x listed) found restored soon
  constructor
  case buckets => rw [Site.buckets, options, grouped]; rfl
  case chosen =>
    have first : (u.perform .enable).firstJob = u.selection :=
      (Site.enable_silent silent orderly).2.1
    rw [first, selection, Options.select, Option.map_map]
    rfl
  case due => rw [Site.estimate, options, thresholds, Options.estimate, grouped]; rfl

theorem Plan.lines_eq (plan : Plan Float) :
    ∃ listing ranking, plan.lines =
      [listing, "buckets:"] ++ plan.buckets.mapIdx bucketLine ++ ["actionable:"] ++ ranking ++
        ["chosen: " ++ (match plan.chosen with | some ns => ids ns | none => "nothing"),
          s!"pending: {plan.due}"] :=
  ⟨_, _, rfl⟩

namespace CommandLine

/-- What the environment has for the table list of a plan: a file, or its input. -/
def Environment.opens (env : Environment) : Option String → Except PathError Opened
  | none => .ok (.ok env.input)
  | some path => env.openFile path

/-- Settings in range are not refused. -/
theorem StrategyArguments.check_eq_ok {a : StrategyArguments} {t : Thresholds}
    (low : Options.lowInRange a.low = true) (high : Options.highInRange a.high = true)
    (least : a.least = t.least) (greatest : a.greatest = t.greatest) :
    a.check = .ok ({ low := a.low, high := a.high, minSize := a.minSize }, t) := by
  have made : Options.make a.low a.high a.minSize =
      .ok { low := a.low, high := a.high, minSize := a.minSize } := by
    rw [Options.make, if_pos low, if_pos high]
  have within : Thresholds.make a.least a.greatest = .ok t := by
    rw [least, greatest, Thresholds.make, dif_pos ⟨t.two_le_least, t.least_le_greatest⟩]
  rw [check, made, within]
  rfl

theorem runCommand_plan {env : Environment} {file : Option String} {a : StrategyArguments}
    {o : Options Float} {t : Thresholds} {opened : Opened} (checked : a.check = .ok (o, t))
    (opens : env.opens file = .ok opened) (level : Nat) :
    runCommand env level (.plan file a) = planFor o t env.clock opened := by
  have planned : runCommand env level (.plan file a) = runPlan env file o t := by
    delta runCommand
    dsimp only
    rw [checked]
  rw [planned]
  cases file with
  | none =>
    cases opens
    rfl
  | some path =>
    have read : env.openFile path = .ok opened := opens
    rw [runPlan, read]

/-- For every list of tables that is read, and all options and thresholds in range, a plan shows
what a compactor with these settings does to which the same tables were flushed while it was
disabled, in any order and any lists: the buckets and the estimate that it has, and the tables of
the first job that it hands over once it is enabled. -/
theorem plan_agrees {env : Environment} {file : Option String} {a : StrategyArguments}
    {o : Options Float} {t : Thresholds} {opened : Opened} {rows : List (TableList.Row Float)}
    {shelf : Shelf Float} {tables : List Table} (checked : a.check = .ok (o, t))
    (opens : env.opens file = .ok opened) (listed : readRows opened = .ok rows)
    (shelved : Plan.shelve GivenRate.ofFloat env.clock.instant rows = (shelf, tables))
    {s : Site Float} {p : Opening Float} (options : p.options = o) (thresholds : p.thresholds = t)
    (held : ∀ x ∈ tables, s.shelf.meter? x = shelf.meter? x)
    (soon : s.clock.instant < env.clock.instant + Meter.interval) {batches : List (List Table)}
    (same : ∀ x, x.size ≠ 0 → (x ∈ batches.flatten ↔ x ∈ tables)) (level : Nat) :
    let u := (s.opened p).run (batches.map .flush)
    let chosen := (u.perform .enable).firstJob.map fun job => job.tables.map (·.id)
    (Plan.make o t shelf env.clock.instant tables).Agrees u ∧
    ∃ listing ranking, runCommand env level (.plan file a) =
      { output := [listing, "buckets:"] ++ u.buckets.mapIdx Plan.bucketLine ++
          ["actionable:"] ++ ranking ++
          ["chosen: " ++ (match chosen with | some ids => Plan.ids ids | none => "nothing"),
            s!"pending: {u.estimate}"] } := by
  intro u chosen
  have kept := Plan.shelved_shelve GivenRate.ofFloat env.clock.instant rows
  rw [shelved] at kept
  have agrees : (Plan.make o t shelf env.clock.instant tables).Agrees u := by
    rw [← options, ← thresholds]
    exact kept.agrees s p held soon same
  obtain ⟨listing, ranking, lines⟩ := (Plan.make o t shelf env.clock.instant tables).lines_eq
  refine ⟨agrees, listing, ranking, ?_⟩
  rw [agrees.buckets, agrees.chosen, agrees.due] at lines
  rw [runCommand_plan checked opens, planFor, listed]
  simp only [shelved, lines]
  rfl

/-- An empty table is listed, and two tables of one size and rate; a job takes no more than two of
the three tables that are alike. -/
theorem listed_tables_agree :
    let env : Environment :=
      { input := "10 1\n0 9\n12 5 # twice\n\n12 5\n100\n".toUTF8
        openFile := fun _ => .error .notFound
        clock := { instant := 0, moment := ⟨0⟩ } }
    let a : StrategyArguments := { low := 0.5, high := 1.5, minSize := 0, least := 2, greatest := 2 }
    let t : Thresholds := ⟨2, 2, by decide, by decide⟩
    let rows : List (TableList.Row Float) := [⟨10, 1⟩, ⟨0, 9⟩, ⟨12, 5⟩, ⟨12, 5⟩, ⟨100, 0⟩]
    let (shelf, tables) := Plan.shelve GivenRate.ofFloat 0 rows
    let s := { Site.sample with shelf, clock.instant := 3 * 10 ^ 9 }
    let p := { Opening.sample .keep with options := ⟨0.5, 1.5, 0⟩, thresholds := t }
    let u := (s.opened p).run ([tables.reverse, tables.take 2].map .flush)
    (Plan.make p.options t shelf 0 tables).Agrees u ∧
      (u.perform .enable).firstJob.map (·.tables.map (·.id)) = some [2, 3] ∧
      (runCommand env 0 (.plan none a)).output =
        ["tables: 5 (134 B)", "buckets:", "  #0: 3 tables, avg 11 B: [0, 2, 3]",
          "  #1: 1 tables, avg 100 B: [4]", "actionable:", "  #0: hotness 10.000, 2 tables, avg 12 B",
          "chosen: [2, 3]", "pending: 2"] := by
  intro env a t rows
  let shelf := (Plan.shelve GivenRate.ofFloat 0 rows).1
  let tables := (Plan.shelve GivenRate.ofFloat 0 rows).2
  let s := { Site.sample with shelf, clock.instant := 3 * 10 ^ 9 }
  let p := { Opening.sample .keep with options := ⟨0.5, 1.5, 0⟩, thresholds := t }
  have checked : a.check = .ok (p.options, t) :=
    StrategyArguments.check_eq_ok (by decide +kernel) (by decide +kernel) rfl rfl
  have opens : env.opens none = .ok (.ok env.input) := rfl
  have listed : readRows (.ok env.input) = .ok rows := by rfl
  have same : ∀ x, x.size ≠ 0 → (x ∈ [tables.reverse, tables.take 2].flatten ↔ x ∈ tables) := by
    intro x _
    simpa using fun taken => List.mem_of_mem_take taken
  have agrees := (plan_agrees checked opens listed rfl (s := s) (p := p) rfl rfl (fun _ _ => rfl)
    (by decide) same 0).1
  exact ⟨agrees, agrees.chosen.symm.trans (by decide +kernel), by decide +kernel⟩

end CommandLine

end TieredCompaction
