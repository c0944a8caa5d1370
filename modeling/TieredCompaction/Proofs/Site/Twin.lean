import TieredCompaction.Proofs.Renaming
import TieredCompaction.Proofs.Site.Settling
import TieredCompaction.Proofs.Site.Surroundings
/-!
A compactor does not notice where the shelf keeps its tables, nor what else stands there. Two sites
are twins if one has the tables of the other at other places. What is called at one of them, with
its tables, does the same at the other, with the same tables there.
-/
namespace TieredCompaction

/-- The table at the place that a list has for it. -/
def Table.at (places : List Nat) (t : Table) : Table :=
  { t with place := places.getD t.place 0 }

theorem moves_at (places : List Nat) : Moves (Table.at places) :=
  ⟨fun _ => rfl, fun _ => rfl⟩

theorem Table.place_at {places : List Nat} {x : Table} (small : x.place < places.length) :
    places[x.place]? = some (x.at places).place := by
  simp [Table.at, List.getD_eq_getElem?_getD, small]

/-- Tables that stand in order stay where they are. -/
theorem Table.at_range {count : Nat} {x : Table} (small : x.place < count) :
    x.at (List.range count) = x := by
  simp [Table.at, List.getD_eq_getElem?_getD, small]

/-- Places that come later are none of these. -/
theorem Table.map_at_append {places : List Nat} {ts : List Table}
    (small : ∀ x ∈ ts, x.place < places.length) (more : List Nat) :
    ts.map (Table.at (places ++ more)) = ts.map (Table.at places) :=
  List.map_congr_left fun x member => by
    simp [Table.at, List.getD_eq_getElem?_getD, List.getElem?_append_left (small x member)]

namespace Shelf

variable {R : Type} {part whole old : Shelf R} {places first : List Nat}

/-- Tables are retired on both shelves. -/
theorem Part.retireAll (parts : Part places part whole) (spares : Spares first old whole)
    (mine : ∀ place ∈ places, place ∈ first ∨ old.holdings.size ≤ place) {tables : List Table}
    (named : ∀ x ∈ tables, x.place < places.length) :
    Part places (tables.foldl retire part) ((tables.map (Table.at places)).foldl retire whole) ∧
      Spares first old ((tables.map (Table.at places)).foldl retire whole) := by
  induction tables generalizing part whole with
  | nil => exact ⟨parts, spares⟩
  | cons x rest ih =>
    obtain ⟨small, later⟩ := List.forall_mem_cons.1 named
    have there := Table.place_at small
    have own := mine _ (List.mem_of_getElem? there)
    exact ih (parts.update there _) (spares.update own _) later

end Shelf

namespace Job

variable {R : Type}

def map (f : Table → Table) (job : Job R) : Job R :=
  { job with tables := job.tables.map f }

end Job

namespace Call

variable {R : Type}

/-- The call with its tables put elsewhere. -/
def map (f : Table → Table) : Call R → Call R
  | flush tables => flush (tables.map f)
  | completeJob id outputs => completeJob id (outputs.map f)
  | complete start inputs stop outputs => complete start (inputs.map f) stop (outputs.map f)
  | giveBack inputs cause => giveBack (inputs.map f) cause
  | call => call

/-- The tables that come with a call. -/
def tables : Call R → List Table
  | flush tables => tables
  | completeJob _ outputs => outputs
  | complete _ inputs _ outputs => inputs ++ outputs
  | giveBack inputs _ => inputs
  | _ => []

theorem map_of_fixed {f : Table → Table} {call : Call R} (fixed : ∀ x ∈ call.tables, f x = x) :
    call.map f = call := by
  have same {ts : List Table} (fixed : ∀ x ∈ ts, f x = x) : ts.map f = ts :=
    (List.map_congr_left fixed).trans (List.map_id ts)
  cases call with
  | flush => exact congrArg flush (same fixed)
  | completeJob id => exact congrArg (completeJob id) (same fixed)
  | complete start inputs stop outputs =>
    obtain ⟨inputs, outputs⟩ := List.forall_mem_append.1 fixed
    simp only [map, same inputs, same outputs]
  | giveBack _ cause => exact congrArg (giveBack · cause) (same fixed)
  | _ => rfl

/-- Whether a call is one of the owner of a store, and not what others do. -/
def isOwn : Call R → Bool
  | elsewhere .. | count _ => false
  | _ => true

end Call

namespace Compactor

variable {R : Type}

/-- The compactor with its tables put elsewhere. -/
def map (f : Table → Table) (c : Compactor R) : Compactor R :=
  { c with
    tables := c.tables.map f
    waiting := c.waiting.map (·.map f)
    submitted := c.submitted.map (·.map f) }

/-- All its tables stand at one of the first places. -/
structure Within (places : Nat) (c : Compactor R) : Prop where
  live : ∀ x ∈ c.tables.live, x.place < places
  waiting : ∀ job ∈ c.waiting, ∀ x ∈ job.tables, x.place < places
  submitted : ∀ job ∈ c.submitted, ∀ x ∈ job.tables, x.place < places

end Compactor

/-- What changes counters in the same way keeps a relation. -/
structure Counters.Steady (C : Counters → Counters → Prop) : Prop where
  flushed : ∀ c d n, C c d → C (c.flushed n) (d.flushed n)
  merged : ∀ c d bytesIn bytesOut, C c d → C (c.merged bytesIn bytesOut) (d.merged bytesIn bytesOut)
  submitted : ∀ c d, C c d →
    C { c with submitted := c.submitted + 1 } { d with submitted := d.submitted + 1 }
  failed : ∀ c d, C c d → C { c with failed := c.failed + 1 } { d with failed := d.failed + 1 }
  pending : ∀ c d n, C c d → C { c with pending := n } { d with pending := n }

namespace Compactor.Within

variable {R : Type} {c : Compactor R} {places : List Nat}

theorem mono {n m : Nat} (within : c.Within n) (more : n ≤ m) : c.Within m where
  live x live := Nat.lt_of_lt_of_le (within.live x live) more
  waiting job waits x held := Nat.lt_of_lt_of_le (within.waiting job waits x held) more
  submitted job known x held := Nat.lt_of_lt_of_le (within.submitted job known x held) more

/-- Tables that come later are none of these. -/
theorem map_at_append (within : c.Within places.length) (more : List Nat) :
    c.map (Table.at (places ++ more)) = c.map (Table.at places) := by
  have jobs {js : List (Job R)} (small : ∀ job ∈ js, ∀ x ∈ job.tables, x.place < places.length) :
      js.map (·.map (Table.at (places ++ more))) = js.map (·.map (Table.at places)) :=
    List.map_congr_left fun job member => by
      rw [Job.map, Job.map, Table.map_at_append (small job member)]
  simp only [map, TableSet.map, Table.map_at_append within.live, jobs within.waiting,
    jobs within.submitted]

end Compactor.Within

namespace Site

variable {R : Type} {s t u s' t' : Site R}

section Moved

variable {f : Table → Table} (moves : Moves f) (same : s.compactor = t.compactor.map f)
include moves same

theorem candidates_moved : s.candidates = t.candidates.map f := by
  rw [candidates, same]
  exact TableSet.candidates_map moves _

omit moves in
theorem tableCount_moved : s.tableCount = t.tableCount := by
  rw [tableCount, same]
  exact List.length_map _

omit moves in
theorem job?_moved (id : Nat) : s.job? id = (t.job? id).map (·.map f) := by
  rw [job?, same]
  simp only [Compactor.map, List.find?_map]
  rfl

theorem flushReports_moved (tables : List Table) :
    s.flushReports (tables.map f) = t.flushReports tables := by
  rw [flushReports, same]
  simp only [Compactor.map, moves.entries, List.isEmpty_map]
  rfl

theorem mergeReports_moved (start : Moment) (inputs : List Table) (stop : Moment)
    (outputs : List Table) :
    s.mergeReports start (inputs.map f) stop (outputs.map f) =
      t.mergeReports start inputs stop outputs := by
  rw [mergeReports, same]
  simp only [Compactor.map, moves.entries]
  rfl

omit same in
theorem keptOutputs_moved (outputs : List Table) :
    keptOutputs (outputs.map f) = (keptOutputs outputs).map f := by
  simp only [keptOutputs, List.filter_map, Function.comp_def, moves.size]

theorem receive_moved (tables : List Table) :
    (s.compactor.tables.receive (tables.map f)).1 = (t.compactor.tables.receive tables).1.map f ∧
      s.admits (tables.map f) = (t.admits tables).map f := by
  rw [admits, same]
  simp only [Compactor.map, TableSet.receive_map moves, TableSet.added_map]
  exact ⟨trivial, rfl⟩

theorem removeAll_moved (inputs : List Table) :
    s.compactor.tables.removeAll (inputs.map f) =
      ((t.compactor.tables.removeAll inputs).1.map f,
        (t.compactor.tables.removeAll inputs).2.map f) := by
  rw [same]
  exact TableSet.removeAll_map moves _ _

variable [Quantity R]

theorem estimate_moved : s.estimate = t.estimate := by
  rw [estimate, candidates_moved moves same, same]
  exact moves.estimate _ _ _

theorem dueReports_moved : s.dueReports = t.dueReports := by
  rw [dueReports, estimate_moved moves same, same]
  rfl

theorem strategyState_moved : s.strategyState = t.strategyState := by
  rw [strategyState, buckets, candidates_moved moves same, same]
  simp only [Compactor.map, TableSet.byId_map moves, moves.descriptors, moves.bucketIds]
  rfl

theorem selection_moved (rates : ∀ x ∈ t.compactor.tables.live, s.hotness (f x) = t.hotness x) :
    s.selection = t.selection.map (·.map f) := by
  have rates : ∀ x ∈ t.candidates, (s.hotness ∘ f) x = t.hotness x := fun x member =>
    rates x (candidates_subset member).1
  rw [selection, candidates_moved moves same, same]
  change t.compactor.options.select t.compactor.thresholds s.hotness (t.candidates.map f) = _
  rw [moves.select, Options.select_congr rates]
  rfl

end Moved

/-- The first site has its tables on a shelf of their own. The second one has the same tables at
the given places of a shelf, behind what stood there before. Counters may differ by what others
counted. -/
structure Twin (C : Counters → Counters → Prop) (old : Shelf R) (first places : List Nat)
    (t s : Site R) : Prop where
  compactor : s.compactor = t.compactor.map (Table.at places)
  within : t.compactor.Within places.length
  counters : C s.counters t.counters
  ids : s.ids = t.ids
  clock : s.clock = t.clock
  part : Shelf.Part places t.shelf s.shelf
  spares : Shelf.Spares first old s.shelf
  grown : places =
    first ++ List.range' old.holdings.size (s.shelf.holdings.size - old.holdings.size)

namespace Twin

variable {C : Counters → Counters → Prop} {old : Shelf R} {first places : List Nat}

theorem of_inside (twin : Twin C old first places t s) (alone : Inside t t') (joint : Inside s s')
    (compactor : s'.compactor = t'.compactor.map (Table.at places))
    (within : t'.compactor.Within places.length) (counters : C s'.counters t'.counters) :
    Twin C old first places t' s' where
  compactor
  within
  counters
  ids := by rw [joint.ids, alone.ids, twin.ids]
  clock := by rw [joint.clock, alone.clock, twin.clock]
  part := by
    rw [joint.shelf, alone.shelf]
    exact twin.part
  spares := by
    rw [joint.shelf]
    exact twin.spares
  grown := by
    rw [joint.shelf]
    exact twin.grown

/-- The tables have the same rates. -/
theorem rates [Quantity R] (twin : Twin C old first places t s) :
    ∀ x ∈ t.compactor.tables.live, s.hotness (x.at places) = t.hotness x := by
  intro x live
  have held := twin.part.held _ _ (Table.place_at (twin.within.live x live))
  simp only [hotness, Shelf.hotness, Shelf.meter?, held, twin.clock]

theorem takeIn (twin : Twin C old first places t s) (steady : Counters.Steady C)
    {tables : List Table} (named : ∀ x ∈ tables, x.place < places.length) :
    Twin C old first places (t.takeIn tables).1 (s.takeIn (tables.map (Table.at places))).1 := by
  have moves := moves_at places
  obtain ⟨received, admitted⟩ := receive_moved moves twin.compactor tables
  have reports := flushReports_moved moves twin.compactor (t.admits tables)
  have new : TableSet.added (s.compactor.tables.receive (tables.map (Table.at places))).2 =
      (t.admits tables).map (Table.at places) := admitted
  refine twin.of_inside (inside_takeIn _ _) (inside_takeIn _ _) ?_ ?_ ?_
  · rw [takeIn_compactor, takeIn_compactor, received, new, reports, twin.compactor]
    rfl
  · rw [takeIn_compactor]
    refine ⟨fun x live => ?_, twin.within.waiting, twin.within.submitted⟩
    rw [TableSet.receive_live] at live
    rcases List.mem_append.1 live with old | new
    · exact twin.within.live x old
    · exact named x (TableSet.of_mem_added_receive new).1
  · rw [takeIn_counters, takeIn_counters, new, List.isEmpty_map, List.length_map]
    change C (if (t.admits tables).isEmpty then _ else _)
      (if (t.admits tables).isEmpty then _ else _)
    split
    · exact twin.counters
    · exact steady.flushed _ _ _ twin.counters

theorem own (twin : Twin C old first places t s) {place : Nat} (mine : place ∈ places) :
    place ∈ first ∨ old.holdings.size ≤ place := by
  rw [twin.grown] at mine
  refine (List.mem_append.1 mine).imp id fun new => ?_
  exact (List.mem_range'_1.1 new).1

/-- What a merge retires is the same tables. -/
theorem replace (twin : Twin C old first places t s) (steady : Counters.Steady C) (start : Moment)
    (inputs : List Table) (stop : Moment) {outputs : List Table}
    (named : ∀ x ∈ outputs, x.place < places.length) :
    Twin C old first places (t.replace start inputs stop outputs)
      (s.replace start (inputs.map (Table.at places)) stop (outputs.map (Table.at places))) := by
  have moves := moves_at places
  have removed := removeAll_moved moves twin.compactor inputs
  have kept := keptOutputs_moved moves outputs
  have received := TableSet.receive_map moves (t.compactor.tables.removeAll inputs).1
    (keptOutputs outputs)
  have reports := mergeReports_moved moves twin.compactor start inputs stop (keptOutputs outputs)
  have leaving : ∀ x ∈ (t.compactor.tables.removeAll inputs).2, x.place < places.length :=
    fun x leaves => twin.within.live x (TableSet.mem_removeAll_snd.1 leaves).1
  obtain ⟨part, spares⟩ := twin.part.retireAll twin.spares (fun place => twin.own) leaving
  refine ⟨?_, ?_, ?_, ?_, ?_, ?_, ?_, ?_⟩
  · rw [replace_compactor, replace_compactor, removed, kept, received, reports, twin.compactor]
    rfl
  · rw [replace_compactor]
    refine ⟨fun x live => ?_, twin.within.waiting, twin.within.submitted⟩
    rw [TableSet.receive_live] at live
    rcases List.mem_append.1 live with old | new
    · exact twin.within.live x (TableSet.mem_live_removeAll.1 old).1
    · exact named x (List.mem_of_mem_filter (TableSet.of_mem_added_receive new).1)
  · rw [replace_counters, replace_counters, kept, moves.sum, moves.sum]
    exact steady.merged _ _ _ _ twin.counters
  · rw [replace_ids, replace_ids, twin.ids]
  · rw [replace_clock, replace_clock, twin.clock]
  · rw [replace_shelf, replace_shelf, removed]
    exact part
  · rw [replace_shelf, removed]
    exact spares
  · rw [replace_shelf, Shelf.size_retireAll]
    exact twin.grown

theorem withdraw (twin : Twin C old first places t s) (id : Nat) :
    Twin C old first places (t.withdraw id) (s.withdraw id) := by
  refine twin.of_inside ⟨rfl, rfl, rfl⟩ ⟨rfl, rfl, rfl⟩ ?_ ?_ twin.counters
  · simp only [Site.withdraw, twin.compactor, Compactor.map, List.filter_map]
    rfl
  · exact ⟨twin.within.live,
      fun job waits => twin.within.waiting job (List.mem_of_mem_filter waits),
      twin.within.submitted⟩

theorem settleJob (twin : Twin C old first places t s) (steady : Counters.Steady C) (job : Job R)
    {outputs : List Table} (named : ∀ x ∈ outputs, x.place < places.length) :
    Twin C old first places (t.settleJob job outputs)
      (s.settleJob (job.map (Table.at places)) (outputs.map (Table.at places))) := by
  have replaced :=
    (twin.withdraw job.id).replace steady job.startedAt job.tables t.clock.moment named
  rw [Site.settleJob, Site.settleJob, twin.clock]
  exact replaced

theorem giveBack (twin : Twin C old first places t s) (steady : Counters.Steady C)
    (inputs : List Table) (cause : Failure) :
    Twin C old first places (t.giveBack inputs cause)
      (s.giveBack (inputs.map (Table.at places)) cause) := by
  refine twin.of_inside ⟨rfl, rfl, rfl⟩ ⟨rfl, rfl, rfl⟩ ?_ ?_ (steady.failed _ _ twin.counters)
  · have shown := TableSet.unhide_map (moves_at places) t.compactor.tables inputs
    simp only [Site.giveBack, setTables, note, twin.compactor, Compactor.map, shown]
  · exact ⟨twin.within.live, twin.within.waiting, twin.within.submitted⟩

theorem failJob (twin : Twin C old first places t s) (steady : Counters.Steady C) (job : Job R)
    (cause : Failure) :
    Twin C old first places (t.failJob job cause) (s.failJob (job.map (Table.at places)) cause) :=
  (twin.withdraw job.id).giveBack steady job.tables cause

theorem note (twin : Twin C old first places t s) (n m : Notice R) :
    Twin C old first places (t.note n) (s.note m) :=
  twin.of_inside ⟨rfl, rfl, rfl⟩ ⟨rfl, rfl, rfl⟩ twin.compactor twin.within twin.counters

theorem dropJob (twin : Twin C old first places t s) (steady : Counters.Steady C) (job : Job R) :
    Twin C old first places (t.dropJob job) (s.dropJob (job.map (Table.at places))) :=
  ((twin.withdraw job.id).note _ _).giveBack steady job.tables .cancelled

theorem setThresholds (twin : Twin C old first places t s) (next : Thresholds) :
    Twin C old first places (t.setThresholds next) (s.setThresholds next) := by
  refine twin.of_inside ⟨rfl, rfl, rfl⟩ ⟨rfl, rfl, rfl⟩ ?_ ?_ twin.counters
  · simp only [Site.setThresholds, Site.note, twin.compactor]
    rfl
  · exact ⟨twin.within.live, twin.within.waiting, twin.within.submitted⟩

theorem setIntake (twin : Twin C old first places t s) (intake : Intake) :
    Twin C old first places (t.setIntake intake) (s.setIntake intake) := by
  refine twin.of_inside ⟨rfl, rfl, rfl⟩ ⟨rfl, rfl, rfl⟩ ?_ ?_ twin.counters
  · simp only [Site.setIntake, twin.compactor]
    rfl
  · exact ⟨twin.within.live, twin.within.waiting, twin.within.submitted⟩

theorem enabled (twin : Twin C old first places t s) :
    s.compactor.enabled = t.compactor.enabled := by
  rw [twin.compactor]
  rfl

theorem disable (twin : Twin C old first places t s) :
    Twin C old first places t.disable.1 s.disable.1 := by
  cases on : t.compactor.enabled with
  | false =>
    rw [disable_of_off on, disable_of_off (twin.enabled.trans on)]
    exact twin
  | true =>
    refine twin.of_inside (inside_disable t) (inside_disable s) ?_ ?_ ?_
    · rw [disable_compactor on, disable_compactor (twin.enabled.trans on), twin.compactor]
      rfl
    · rw [disable_compactor on]
      exact ⟨twin.within.live, twin.within.waiting, twin.within.submitted⟩
    · simp only [Site.disable, on, twin.enabled, if_true]
      exact twin.counters

theorem drawId (twin : Twin C old first places t s) :
    s.drawId.1 = t.drawId.1 ∧ Twin C old first places t.drawId.2 s.drawId.2 := by
  refine ⟨congrArg IdSource.next twin.ids, ?_⟩
  exact { twin with ids := congrArg (IdSource.draw · |>.2) twin.ids }

theorem raise (twin : Twin C old first places t s) (id : Nat) :
    Twin C old first places { t with ids := t.ids.raise id } { s with ids := s.ids.raise id } :=
  { twin with ids := congrArg (IdSource.raise · id) twin.ids }

/-- A table is read. -/
theorem onMeter (twin : Twin C old first places t s) {x : Table} (named : x.place < places.length)
    (change : Meter R → Meter R) :
    Twin C old first places (t.onMeter x change) (s.onMeter (x.at places) change) := by
  have there := Table.place_at named
  refine { twin with part := twin.part.update there _, spares := ?_, grown := ?_ }
  · exact twin.spares.update (twin.own (List.mem_of_getElem? there)) _
  · exact twin.grown.trans (by simp [Site.onMeter, Shelf.updateMeter])

variable [Quantity R]

/-- A table that is made stands behind all others. -/
theorem makeTable (twin : Twin C old first places t s) (id size : Nat) :
    (s.makeTable id size).1 =
        (t.makeTable id size).1.at (places ++ [s.shelf.holdings.size]) ∧
      Twin C old first (places ++ [s.shelf.holdings.size]) (t.makeTable id size).2
        (s.makeTable id size).2 := by
  have count : t.shelf.holdings.size = places.length := twin.part.size
  have same : Compactor.map (Table.at (places ++ [s.shelf.holdings.size])) t.compactor =
      Compactor.map (Table.at places) t.compactor := twin.within.map_at_append _
  refine ⟨?_, ?_⟩
  · simp only [Site.makeTable, Shelf.add, Table.at, count]
    simp
  · exact {
      compactor := twin.compactor.trans same.symm
      within := twin.within.mono (by simp)
      counters := twin.counters
      ids := twin.ids
      clock := twin.clock
      part := by
        have made := twin.part.push { meter := .fresh s.clock.instant, retired := false }
        rw [Site.makeTable, Site.makeTable, ← twin.clock]
        exact made
      spares := twin.spares.push _
      grown := by
        have more : (s.makeTable id size).2.shelf.holdings.size = s.shelf.holdings.size + 1 :=
          Array.size_push _
        have last : old.holdings.size + 1 * (s.shelf.holdings.size - old.holdings.size) =
            s.shelf.holdings.size := by
          rw [Nat.one_mul, Nat.add_sub_cancel' twin.spares.size]
        rw [more, Nat.succ_sub twin.spares.size, List.range'_concat, last, ← List.append_assoc,
          ← twin.grown] }

theorem switchOn (twin : Twin C old first places t s) :
    Twin C old first places t.switchOn s.switchOn := by
  have state := strategyState_moved (moves_at places) twin.compactor
  refine twin.of_inside (inside_switchOn t) (inside_switchOn s) ?_ ?_ twin.counters
  · rw [switchOn_compactor, switchOn_compactor, state, twin.compactor]
    rfl
  · exact ⟨twin.within.live, twin.within.waiting, twin.within.submitted⟩

theorem passOver (twin : Twin C old first places t s) (steady : Counters.Steady C) :
    Twin C old first places t.passOver s.passOver := by
  have moves := moves_at places
  have due := estimate_moved moves twin.compactor
  have reports := dueReports_moved moves twin.compactor
  refine twin.of_inside (inside_passOver t) (inside_passOver s) ?_ ?_ ?_
  · rw [passOver_compactor, passOver_compactor, due, reports, twin.compactor]
    rfl
  · rw [passOver_compactor]
    exact ⟨twin.within.live, twin.within.waiting, twin.within.submitted⟩
  · rw [passOver_counters, passOver_counters, due]
    exact steady.pending _ _ _ twin.counters

theorem selection (twin : Twin C old first places t s) :
    s.selection = t.selection.map (·.map (Table.at places)) :=
  selection_moved (moves_at places) twin.compactor twin.rates

omit [Quantity R] in
theorem jobOf (twin : Twin C old first places t s) (chosen : Selection R) :
    s.jobOf (chosen.map (Table.at places)) = (t.jobOf chosen).map (Table.at places) := by
  simp only [Site.jobOf, twin.clock, twin.compactor]
  rfl

/-- The same job is handed over. -/
theorem handOver (twin : Twin C old first places t s) (steady : Counters.Steady C)
    {chosen : Selection R} (some : t.selection = some chosen) :
    Twin C old first places (t.handOver chosen)
      (s.handOver (chosen.map (Table.at places))) := by
  have moves := moves_at places
  have job := twin.jobOf chosen
  have taken : (s.take (chosen.map (Table.at places))).compactor =
      (t.take chosen).compactor.map (Table.at places) := by
    simp only [take, twin.compactor, Selection.map, moves.ids]
    rfl
  have due := estimate_moved moves taken
  have reports := dueReports_moved moves taken
  have chosenWithin : ∀ x ∈ chosen.tables, x.place < places.length := fun x member =>
    twin.within.live x (selection_free some x member).1
  have jobs {jobs : List (Job R)}
      (known : ∀ job ∈ jobs, ∀ x ∈ job.tables, x.place < places.length) :
      ∀ job ∈ jobs ++ [t.jobOf chosen], ∀ x ∈ job.tables, x.place < places.length := by
    intro job member
    rcases List.mem_append.1 member with old | new
    · exact known job old
    · rw [List.mem_singleton.1 new]
      exact chosenWithin
  refine twin.of_inside (inside_handOver t _) (inside_handOver s _) ?_ ?_ ?_
  · rw [handOver_compactor, handOver_compactor, due, reports, taken, job, twin.compactor]
    simp only [Compactor.map, List.map_append, List.map_cons, List.map_nil]
  · rw [handOver_compactor]
    exact ⟨twin.within.live, jobs twin.within.waiting, jobs twin.within.submitted⟩
  · rw [handOver_counters, handOver_counters, due]
    exact steady.pending _ _ _ (steady.submitted _ _ twin.counters)

/-- The queue makes the same table of a job, at the next place. -/
theorem settleMerged (twin : Twin C old first places t s) (steady : Counters.Steady C) {job : Job R}
    (named : ∀ x ∈ job.tables, x.place < places.length) :
    Twin C old first (places ++ [s.shelf.holdings.size]) (t.settleMerged job)
      (s.settleMerged (job.map (Table.at places))) := by
  obtain ⟨ids, drawn⟩ := twin.drawId
  obtain ⟨output, made⟩ := drawn.makeTable t.drawId.1 job.inputSize
  have sizes : (job.map (Table.at places)).inputSize = job.inputSize := (moves_at places).sum _
  have merges : s.mergeOutput (job.map (Table.at places)) =
      s.drawId.2.makeTable t.drawId.1 job.inputSize := by
    rw [← ids, ← sizes]
    rfl
  have jobs : job.map (Table.at places) =
      job.map (Table.at (places ++ [s.shelf.holdings.size])) := by
    rw [Job.map, Job.map, Table.map_at_append named]
  have new : ∀ x ∈ [(t.mergeOutput job).1],
      x.place < (places ++ [s.shelf.holdings.size]).length := by
    intro x member
    rw [List.mem_singleton.1 member, List.length_append, ← twin.part.size]
    exact Nat.lt_succ_self _
  have settled := made.settleJob steady job new
  rw [Site.settleMerged, Site.settleMerged, merges, output, jobs]
  exact settled

omit [Quantity R] in
theorem orderly (twin : Twin C old first places t s) (orderly : t.Orderly) : s.Orderly where
  tables := by
    have same : (t.compactor.tables.map (Table.at places)).liveIds = t.compactor.tables.liveIds :=
      (moves_at places).ids _
    rw [twin.compactor]
    exact same.symm ▸ orderly.tables
  jobs := by
    rw [twin.compactor]
    simpa [Compactor.map, Function.comp_def, Job.map] using orderly.jobs
  issued job waits := by
    rw [twin.compactor] at waits ⊢
    obtain ⟨other, known, rfl⟩ := List.mem_map.1 waits
    exact orderly.issued other known

omit [Quantity R] in
theorem nothing (twin : Twin C old first places t s) :
    ∃ more, Twin C old first (places ++ more) t s :=
  ⟨[], by rwa [List.append_nil]⟩

theorem passUpTo (twin : Twin C old first places t s) (steady : Counters.Steady C)
    (orderly : t.Orderly) (limit : Nat) :
    ∃ more, Twin C old first (places ++ more) (t.passUpTo limit).1 (s.passUpTo limit).1 := by
  -- Each job that is merged at once puts a table on both shelves, so that the places grow.
  induction limit generalizing s t places with
  | zero => exact twin.nothing
  | succ limit ih =>
    have others := twin.orderly orderly
    cases on : t.compactor.enabled with
    | false =>
      rw [passUpTo_off on, passUpTo_off (twin.enabled.trans on)]
      exact twin.nothing
    | true =>
      have onToo := twin.enabled.trans on
      cases selected : t.selection with
      | none =>
        have nothing : s.selection = Option.none := by rw [twin.selection, selected]; rfl
        rw [passUpTo_none on selected, passUpTo_none onToo nothing]
        exact (twin.passOver steady).nothing
      | some chosen =>
        have selectedToo : s.selection = some (chosen.map (Table.at places)) := by
          rw [twin.selection, selected]
          rfl
        have handed := twin.handOver steady selected
        have job := twin.jobOf chosen
        have intakes : s.compactor.intake = t.compactor.intake := by
          rw [twin.compactor]
          rfl
        cases intake : t.compactor.intake with
        | keep =>
          rw [passUpTo_keep orderly on selected intake,
            passUpTo_keep others onToo selectedToo (intakes.trans intake)]
          exact handed.nothing
        | drop =>
          rw [passUpTo_drop orderly on selected intake,
            passUpTo_drop others onToo selectedToo (intakes.trans intake), job]
          exact (handed.dropJob steady _).nothing
        | merge =>
          have named : ∀ x ∈ (t.jobOf chosen).tables, x.place < places.length :=
            handed.within.waiting _ (t.waits_handOver chosen)
          have merged := handed.settleMerged steady named
          have acts : Relation.ReflTransGen (Act False) t
              ((t.handOver chosen).settleMerged (t.jobOf chosen)) := acts_merged on selected
          obtain ⟨more, later⟩ := ih merged (orderly.acts acts)
          rw [passUpTo_merge orderly on selected intake,
            passUpTo_merge others onToo selectedToo (intakes.trans intake), job]
          exact ⟨_, by rwa [List.append_assoc] at later⟩

theorem pass (twin : Twin C old first places t s) (steady : Counters.Steady C)
    (orderly : t.Orderly) : ∃ more, Twin C old first (places ++ more) t.pass.1 s.pass.1 := by
  rw [Site.pass, Site.pass, tableCount_moved twin.compactor]
  exact twin.passUpTo steady orderly _

private theorem pass_after (twin : Twin C old first places t s) (steady : Counters.Steady C)
    (orderly : u.Orderly) (act : Act True u t) :
    ∃ more, Twin C old first (places ++ more) t.pass.1 s.pass.1 :=
  twin.pass steady (orderly.act act)

omit [Quantity R] in
theorem onJob (twin : Twin C old first places t s) {id : Nat} {f g : Site R → Job R → Site R}
    (twins : ∀ job ∈ t.compactor.waiting,
      ∃ more, Twin C old first (places ++ more) (f t job) (g s (job.map (Table.at places)))) :
    ∃ more, Twin C old first (places ++ more) (t.onJob id f) (s.onJob id g) := by
  rw [Site.onJob, Site.onJob, job?_moved twin.compactor]
  cases found : t.job? id with
  | none => exact twin.nothing
  | some job => exact twins job (List.mem_of_find?_eq_some found)

/-- Whatever is called at one of the twins, with its tables, does the same at the other. -/
theorem perform (twin : Twin C old first places t s) (steady : Counters.Steady C)
    (orderly : t.Orderly) {call : Call R} (own : call.isOwn = true)
    (named : ∀ x ∈ call.tables, x.place < places.length) :
    ∃ more, Twin C old first (places ++ more) (t.perform call)
      (s.perform (call.map (Table.at places))) := by
  cases call with
  | enable =>
    cases on : t.compactor.enabled with
    | false =>
      simp only [Site.perform, Call.map, enable_of_off on, enable_of_off (twin.enabled.trans on)]
      exact twin.switchOn.pass_after steady orderly (.switchOn on)
    | true =>
      simp only [Site.perform, Call.map, enable_of_on on, enable_of_on (twin.enabled.trans on)]
      exact twin.nothing
  | disable => exact twin.disable.nothing
  | flush tables =>
    have taken := twin.takeIn steady named
    obtain ⟨_, admitted⟩ := receive_moved (moves_at places) twin.compactor tables
    have new :
        (TableSet.added (s.compactor.tables.receive (tables.map (Table.at places))).2).isEmpty =
        (TableSet.added (t.compactor.tables.receive tables).2).isEmpty :=
      (congrArg List.isEmpty admitted).trans List.isEmpty_map
    simp only [Site.perform, Call.map, flush_eq, new]
    split
    · exact taken.nothing
    · exact taken.pass_after steady orderly (.takeIn t tables)
  | evaluate => exact twin.pass steady orderly
  | setThresholds next => exact (twin.setThresholds next).nothing
  | completeJob id outputs =>
    refine twin.onJob (f := fun t job => t.completeJob job outputs)
      (g := fun s job => s.completeJob job (outputs.map (Table.at places))) fun job waits => ?_
    exact (twin.settleJob steady job named).pass_after steady orderly (.settle waits outputs)
  | failJob id cause =>
    exact twin.onJob (f := fun t job => t.failJob job cause) (g := fun s job => s.failJob job cause)
      fun job _ => (twin.failJob steady job cause).nothing
  | dropJob id =>
    exact twin.onJob (f := Site.dropJob) (g := Site.dropJob)
      fun job _ => (twin.dropJob steady job).nothing
  | complete start inputs stop outputs =>
    have outputs : ∀ x ∈ outputs, x.place < places.length :=
      fun x member => named x (List.mem_append_right _ member)
    exact (twin.replace steady start inputs stop outputs).pass_after steady orderly
      (.replace t trivial start inputs stop _)
  | giveBack inputs cause => exact (twin.giveBack steady inputs cause).nothing
  | setIntake intake => exact (twin.setIntake intake).nothing
  | elsewhere => contradiction
  | count => contradiction

end Twin

end Site

end TieredCompaction
