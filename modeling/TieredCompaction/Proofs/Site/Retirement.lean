import TieredCompaction.Proofs.Site.History
import TieredCompaction.Proofs.Site.Surroundings
/-!
A table is retired once it has left the live tables. A run lists the tables that enter, and the
marks on the shelf tell which of them have left again, whatever table was passed under their IDs.
-/
namespace TieredCompaction

/-- The outputs that a merge puts among the live tables. -/
def Merge.entering (m : Merge) : List Table :=
  TableSet.added ((m.tables.removeAll m.inputs).1.receive m.kept).2

theorem Merge.entering_sublist (m : Merge) : m.entering.Sublist m.kept :=
  TableSet.added_sublist _ _

theorem Merge.entering_subset (m : Merge) : m.entering ⊆ m.outputs :=
  (m.entering_sublist.trans List.filter_sublist).subset

/-- The place of a table is not that of another one. -/
def Table.Alone (t : Table) (tables : List Table) : Prop :=
  ∀ u ∈ tables, u.place = t.place → u = t

instance (t : Table) (tables : List Table) : Decidable (t.Alone tables) :=
  inferInstanceAs (Decidable (∀ u ∈ tables, _))

def Call.flushed {R : Type} : Call R → List Table
  | .flush tables => tables
  | _ => []

namespace Site

variable {R : Type} [Quantity R]

/-- The tables that a call puts among the live ones. -/
def enteringBy (s : Site R) (call : Call R) : List Table :=
  s.admittedBy call ++ (s.mergesBy call).flatMap Merge.entering

/-- The tables that come to be live in a run, in order. -/
def entered (s : Site R) : List (Call R) → List Table
  | [] => []
  | call :: rest => s.enteringBy call ++ (s.perform call).entered rest

/-- The tables that a call hands over to become live. -/
def offeredBy (s : Site R) (call : Call R) : List Table :=
  call.flushed ++ (s.mergesBy call).flatMap (·.outputs)

/-- The tables that a run hands over to become live, in order. -/
def offered (s : Site R) : List (Call R) → List Table
  | [] => []
  | call :: rest => s.offeredBy call ++ (s.perform call).offered rest

/-- No retired table is handed over, no live one is the output of a merge, and others let the marks
on the shelf be. -/
def Allows (s : Site R) : Call R → Prop
  | .flush tables => ∀ t ∈ tables, s.shelf.Offers t
  | .completeJob _ outputs | .complete _ _ _ outputs =>
    ∀ t ∈ outputs, s.shelf.Offers t ∧ t ∉ s.compactor.tables.live
  | .elsewhere _ shelf _ => s.shelf.Extends shelf
  | _ => True

def AllowsAll (s : Site R) : List (Call R) → Prop
  | [] => True
  | call :: rest => s.Allows call ∧ (s.perform call).AllowsAll rest

instance (s : Site R) (call : Call R) : Decidable (s.Allows call) := by
  cases call <;> unfold Allows <;> infer_instance

instance (s : Site R) (calls : List (Call R)) : Decidable (s.AllowsAll calls) :=
  match calls with
  | [] => .isTrue trivial
  | call :: rest =>
    have := instDecidableAllowsAll (s.perform call) rest
    inferInstanceAs (Decidable (_ ∧ _))

open Relation (ReflTransGen)

variable {s t : Site R} {gone : Nat → Prop} {entered : List Table}

/-- The marks on the shelf tell which of the tables that entered have left, and the marks that are
given have stayed. -/
structure Marked (gone : Nat → Prop) (s : Site R) (entered : List Table) : Prop where
  live : s.compactor.tables.live ⊆ entered
  marks : ∀ place, s.shelf.marked place = true ↔
    ∃ t ∈ entered, t.place = place ∧ t ∉ s.compactor.tables.live
  shelved : ∀ t ∈ entered, t.place < s.shelf.holdings.size
  jobs : ∀ job ∈ s.compactor.waiting, job.tables ⊆ entered
  stay : ∀ place, gone place → s.shelf.marked place = true

namespace Marked

omit [Quantity R] in
/-- Nothing happens to the live tables and the marks. -/
private theorem of_same (marked : Marked gone s entered)
    (live : t.compactor.tables.live = s.compactor.tables.live)
    (extended : s.shelf.Extends t.shelf)
    (jobs : ∀ job ∈ t.compactor.waiting, job.tables ⊆ entered) : Marked gone t entered where
  live := live ▸ marked.live
  marks place := by
    rw [extended.marked, live]
    exact marked.marks place
  shelved t enters := Nat.lt_of_lt_of_le (marked.shelved t enters) extended.size
  jobs
  stay place given := by
    rw [extended.marked]
    exact marked.stay place given

omit [Quantity R] in
private theorem of_inside (marked : Marked gone s entered)
    (live : t.compactor.tables.live = s.compactor.tables.live) (inside : Inside s t)
    (jobs : t.compactor.waiting ⊆ s.compactor.waiting) : Marked gone t entered :=
  marked.of_same live (inside.shelf ▸ ⟨Nat.le_refl _, fun _ _ => rfl⟩)
    fun job waits => marked.jobs job (jobs waits)

omit [Quantity R] in
private theorem takeIn (marked : Marked gone s entered) {tables : List Table}
    (offers : ∀ t ∈ tables, s.shelf.Offers t) :
    Marked gone (s.takeIn tables).1 (entered ++ s.admits tables) := by
  have after := s.takeIn_compactor tables
  have inside := s.inside_takeIn tables
  have live : (s.takeIn tables).1.compactor.tables.live =
      s.compactor.tables.live ++ s.admits tables := by
    rw [after]
    exact TableSet.receive_live _ _
  have offered {t : Table} (new : t ∈ s.admits tables) : s.shelf.Offers t :=
    offers t (TableSet.of_mem_added_receive new).1
  refine ⟨?_, fun place => ?_, fun t enters => ?_, fun job waits => ?_, fun place given => ?_⟩
  · rw [live]
    exact List.append_subset.2
      ⟨List.Subset.trans marked.live (List.subset_append_left _ _), List.subset_append_right _ _⟩
  · rw [inside.shelf, live]
    constructor
    · intro mark
      obtain ⟨t, enters, rfl, left⟩ := (marked.marks place).1 mark
      have old : t ∉ s.admits tables := fun new => by
        rw [(offered new).2] at mark
        contradiction
      exact ⟨t, List.mem_append_left _ enters, rfl, by simp [left, old]⟩
    · rintro ⟨t, enters, rfl, left⟩
      simp only [List.mem_append, not_or] at enters left
      exact (marked.marks _).2 ⟨t, enters.resolve_right left.2, rfl, left.1⟩
  · rw [inside.shelf]
    rcases List.mem_append.1 enters with old | new
    · exact marked.shelved t old
    · exact (offered new).1
  · rw [after] at waits
    exact fun t held => List.mem_append_left _ (marked.jobs job waits held)
  · rw [inside.shelf]
    exact marked.stay place given

omit [Quantity R] in
private theorem live_replace (s : Site R) (start : Moment) (inputs : List Table) (stop : Moment)
    (outputs : List Table) (t : Table) :
    t ∈ (s.replace start inputs stop outputs).compactor.tables.live ↔
      (t ∈ s.compactor.tables.live ∧ t.id ∉ inputs.map (·.id)) ∨
        t ∈ Merge.entering ⟨s.compactor.tables, inputs, outputs⟩ := by
  rw [replace_compactor, TableSet.receive_live, List.mem_append, TableSet.mem_live_removeAll]
  rfl

omit [Quantity R] in
/-- What leaves is marked, under whatever tables it was reported. -/
private theorem marks_replace (marked : Marked gone s entered) (start : Moment)
    (inputs : List Table) (stop : Moment) {outputs : List Table}
    (offers : ∀ t ∈ Merge.entering ⟨s.compactor.tables, inputs, outputs⟩,
      s.shelf.Offers t ∧ t ∉ s.compactor.tables.live) (place : Nat) :
    (s.replace start inputs stop outputs).shelf.marked place = true ↔
      ∃ t ∈ entered ++ Merge.entering ⟨s.compactor.tables, inputs, outputs⟩, t.place = place ∧
        t ∉ (s.replace start inputs stop outputs).compactor.tables.live := by
  have live := live_replace s start inputs stop outputs
  rw [replace_shelf, Shelf.marked_retireAll]
  constructor
  · rintro (mark | ⟨_, t, leaves, rfl⟩)
    · obtain ⟨t, enters, rfl, left⟩ := (marked.marks place).1 mark
      refine ⟨t, List.mem_append_left _ enters, rfl, fun stays => ?_⟩
      rcases (live t).1 stays with kept | new
      · exact left kept.1
      · rw [(offers t new).1.2] at mark
        contradiction
    · obtain ⟨lives, named⟩ := TableSet.mem_removeAll_snd.1 leaves
      refine ⟨t, List.mem_append_left _ (marked.live lives), rfl, fun stays => ?_⟩
      rcases (live t).1 stays with kept | new
      · exact kept.2 named
      · exact (offers t new).2 lives
  · rintro ⟨t, enters, rfl, left⟩
    rw [live, not_or, not_and_not_right] at left
    have enters := (List.mem_append.1 enters).resolve_right left.2
    by_cases lives : t ∈ s.compactor.tables.live
    · exact .inr ⟨marked.shelved t enters, t,
        TableSet.mem_removeAll_snd.2 ⟨lives, left.1 lives⟩, rfl⟩
    · exact .inl ((marked.marks _).2 ⟨t, enters, rfl, lives⟩)

omit [Quantity R] in
private theorem replace (marked : Marked gone s entered) (start : Moment) (inputs : List Table)
    (stop : Moment) {outputs : List Table}
    (offers : ∀ t ∈ outputs, s.shelf.Offers t ∧ t ∉ s.compactor.tables.live) :
    Marked gone (s.replace start inputs stop outputs)
      (entered ++ Merge.entering ⟨s.compactor.tables, inputs, outputs⟩) := by
  have offered : ∀ t ∈ Merge.entering ⟨s.compactor.tables, inputs, outputs⟩,
      s.shelf.Offers t ∧ t ∉ s.compactor.tables.live :=
    fun t new => offers t (Merge.entering_subset _ new)
  refine ⟨fun t lives => ?_, marked.marks_replace start inputs stop offered, fun t enters => ?_,
    fun job waits => ?_, fun place given => ?_⟩
  · rw [live_replace] at lives
    exact List.mem_append.2 (lives.imp (fun old => marked.live old.1) id)
  · rw [replace_shelf, Shelf.size_retireAll]
    rcases List.mem_append.1 enters with old | new
    · exact marked.shelved t old
    · exact (offered t new).1.1
  · rw [replace_compactor] at waits
    exact fun t held => List.mem_append_left _ (marked.jobs job waits held)
  · rw [replace_shelf, Shelf.marked_retireAll]
    exact .inl (marked.stay place given)

omit [Quantity R] in
private theorem settleJob (marked : Marked gone s entered) (job : Job R) {outputs : List Table}
    (offers : ∀ t ∈ outputs, s.shelf.Offers t ∧ t ∉ s.compactor.tables.live) :
    Marked gone (s.settleJob job outputs)
      (entered ++ Merge.entering ⟨s.compactor.tables, job.tables, outputs⟩) :=
  have withdrawn : Marked gone (s.withdraw job.id) entered :=
    marked.of_inside rfl ⟨rfl, rfl, rfl⟩ List.filter_sublist.subset
  withdrawn.replace _ _ _ offers

/-- The table that a queue makes has a place of its own. -/
private theorem settleMerged (marked : Marked gone s entered) (job : Job R) :
    Marked gone (s.settleMerged job) (entered ++
      Merge.entering ⟨s.compactor.tables, job.tables, [(s.mergeOutput job).1]⟩) := by
  have extended : s.shelf.Extends (s.mergeOutput job).2.shelf := Shelf.extends_push _ rfl
  have made : Marked gone (s.mergeOutput job).2 entered :=
    marked.of_same rfl extended marked.jobs
  have place : (s.mergeOutput job).1.place = s.shelf.holdings.size := rfl
  refine made.settleJob job fun t output => ?_
  rw [List.mem_singleton.1 output]
  refine ⟨⟨?_, ?_⟩, fun lives => ?_⟩
  · rw [place]
    exact Nat.lt_of_lt_of_eq (Nat.lt_succ_self _) (Array.size_push _).symm
  · rw [place, extended.marked]
    exact Shelf.marked_of_le (Nat.le_refl _)
  · have before := marked.shelved _ (marked.live lives)
    exact absurd (place ▸ before) (Nat.lt_irrefl _)

private theorem handOver (marked : Marked gone s entered) {chosen : Selection R}
    (some : s.selection = some chosen) : Marked gone (s.handOver chosen) entered := by
  refine marked.of_same (s.live_handOver chosen)
    ((s.inside_handOver chosen).shelf ▸ ⟨Nat.le_refl _, fun _ _ => rfl⟩) fun job waits => ?_
  rw [handOver_compactor] at waits
  rcases List.mem_append.1 waits with old | new
  · exact marked.jobs job old
  · rw [List.mem_singleton.1 new]
    exact fun t member => marked.live (selection_free some t member).1

private theorem chain {limit : Nat} (marked : Marked gone s entered) (chain : Chain limit s t) :
    Marked gone t (entered ++ (s.mergesUpTo limit).flatMap Merge.entering) := by
  induction chain generalizing entered with
  | cut => simpa [mergesUpTo] using marked
  | off off => simpa [mergesUpTo_off off] using marked
  | @idle s limit on none =>
    have after := s.passOver_compactor
    rw [mergesUpTo_none on none, List.flatMap_nil, List.append_nil]
    exact marked.of_inside (congrArg (·.tables.live) after) s.inside_passOver
      fun job waits => congrArg (·.waiting) after ▸ waits
  | keep orderly on some keep =>
    rw [mergesUpTo_kept orderly on some (by simp [keep]), List.flatMap_nil, List.append_nil]
    exact marked.handOver some
  | @drop s limit chosen orderly on some drop =>
    rw [mergesUpTo_kept orderly on some (by simp [drop]), List.flatMap_nil, List.append_nil]
    exact (marked.handOver some).of_inside rfl (inside_dropJob _ _) List.filter_sublist.subset
  | merge orderly on some merge rest ih =>
    rw [mergesUpTo_merge orderly on some merge, List.flatMap_cons, ← List.append_assoc]
    exact ih ((marked.handOver some).settleMerged _)

private theorem pass (marked : Marked gone s entered) (orderly : s.Orderly) :
    Marked gone s.pass.1 (entered ++ s.passMerges.flatMap Merge.entering) :=
  marked.chain (chain_passUpTo orderly _)

theorem perform (marked : Marked gone s entered) (orderly : s.Orderly) {call : Call R}
    (allowed : s.Allows call) :
    Marked gone (s.perform call) (entered ++ s.enteringBy call) := by
  have quiet {t : Site R} (same : Marked gone t entered) (none : s.enteringBy call = []) :
      Marked gone t (entered ++ s.enteringBy call) := by
    rwa [none, List.append_nil]
  cases call with
  | enable =>
    cases enabled : s.compactor.enabled with
    | false =>
      have switches : Act True s s.switchOn := .switchOn enabled
      have switched : Marked gone s.switchOn entered :=
        marked.of_inside rfl s.inside_switchOn (List.Subset.refl _)
      have later := switched.pass (orderly.act switches)
      simpa [Site.perform, enable_of_off enabled, enteringBy, admittedBy, mergesBy, enabled]
        using later
    | true =>
      simpa [Site.perform, enable_of_on enabled, enteringBy, admittedBy, mergesBy, enabled]
        using marked
  | disable =>
    refine quiet ?_ rfl
    cases enabled : s.compactor.enabled with
    | false => rwa [Site.perform, disable_of_off enabled]
    | true =>
      have after := disable_compactor enabled
      exact marked.of_inside (congrArg (·.tables.live) after) s.inside_disable
        fun job waits => congrArg (·.waiting) after ▸ waits
  | flush tables =>
    have takes : Act True s (s.takeIn tables).1 := .takeIn s tables
    have taken := marked.takeIn allowed
    rw [Site.perform, flush_eq]
    split
    · next none =>
      have none : (s.admits tables).isEmpty = true := none
      simpa [enteringBy, admittedBy, mergesBy, none] using taken
    · next new =>
      have new : (s.admits tables).isEmpty = false := Bool.eq_false_iff.2 new
      have later := taken.pass (orderly.act takes)
      simpa [enteringBy, admittedBy, mergesBy, new] using later
  | evaluate => exact marked.pass orderly
  | setThresholds => exact quiet (marked.of_inside rfl ⟨rfl, rfl, rfl⟩ (List.Subset.refl _)) rfl
  | completeJob id outputs =>
    cases found : s.job? id with
    | none => simpa [Site.perform, onJob, enteringBy, admittedBy, mergesBy, found] using marked
    | some job =>
      have waits : job ∈ s.compactor.waiting := List.mem_of_find?_eq_some found
      have settles : Act True s (s.settleJob job outputs) := .settle waits outputs
      have later := (marked.settleJob job allowed).pass (orderly.act settles)
      rw [Site.perform, onJob, found]
      change Marked gone (s.settleJob job outputs).pass.1 _
      simpa [enteringBy, admittedBy, mergesBy, found] using later
  | failJob id cause =>
    refine quiet ?_ rfl
    cases found : s.job? id with
    | none => simpa [Site.perform, onJob, found] using marked
    | some job =>
      rw [Site.perform, onJob, found]
      exact marked.of_inside rfl (inside_failJob s job cause) List.filter_sublist.subset
  | dropJob id =>
    refine quiet ?_ rfl
    cases found : s.job? id with
    | none => simpa [Site.perform, onJob, found] using marked
    | some job =>
      rw [Site.perform, onJob, found]
      exact marked.of_inside rfl (inside_dropJob s job) List.filter_sublist.subset
  | complete start inputs stop outputs =>
    have replaced := marked.replace start inputs stop allowed
    have later := replaced.pass (orderly.act (.replace s trivial start inputs stop outputs))
    change Marked gone (s.replace start inputs stop outputs).pass.1 _
    simpa [enteringBy, admittedBy, mergesBy] using later
  | giveBack => exact quiet (marked.of_inside rfl ⟨rfl, rfl, rfl⟩ (List.Subset.refl _)) rfl
  | setIntake => exact quiet (marked.of_inside rfl ⟨rfl, rfl, rfl⟩ (List.Subset.refl _)) rfl
  | elsewhere => exact quiet (marked.of_same rfl allowed marked.jobs) rfl
  | count => exact quiet (marked.of_inside rfl ⟨rfl, rfl, rfl⟩ (List.Subset.refl _)) rfl

theorem run (marked : Marked gone s entered) (orderly : s.Orderly) {calls : List (Call R)}
    (allowed : s.AllowsAll calls) : Marked gone (s.run calls) (entered ++ s.entered calls) := by
  induction calls generalizing s entered with
  | nil => simpa [Site.entered, Site.run] using marked
  | cons call rest ih =>
    have acts : ReflTransGen (Act True) s (s.perform call) :=
      acts_perform orderly call fun _ => trivial
    have later := ih (marked.perform orderly allowed.1) (orderly.acts acts) allowed.2
    rwa [List.append_assoc] at later

end Marked

theorem allowsAll_append {before after : List (Call R)} :
    s.AllowsAll (before ++ after) ↔ s.AllowsAll before ∧ (s.run before).AllowsAll after := by
  induction before generalizing s with
  | nil => simp [AllowsAll, Site.run]
  | cons call rest ih =>
    simp only [List.cons_append, AllowsAll, ih, and_assoc]
    rfl

/-- Only what is handed over comes to be live. -/
theorem entered_subset_offered (s : Site R) (calls : List (Call R)) :
    s.entered calls ⊆ s.offered calls := by
  induction calls generalizing s with
  | nil => exact List.Subset.refl _
  | cons call rest ih =>
    have merged : (s.mergesBy call).flatMap Merge.entering ⊆
        (s.mergesBy call).flatMap (·.outputs) := fun t enters => by
      obtain ⟨merge, reported, enters⟩ := List.mem_flatMap.1 enters
      exact List.mem_flatMap.2 ⟨merge, reported, merge.entering_subset enters⟩
    have flushed : s.admittedBy call ⊆ call.flushed := by
      cases call with
      | flush tables => exact (TableSet.added_sublist _ _).subset
      | _ => exact List.nil_subset _
    intro t enters
    simp only [entered, offered, enteringBy, offeredBy, List.mem_append] at enters ⊢
    exact enters.imp (Or.imp (@flushed t) (@merged t)) (@ih (s.perform call) t)

/-- The marks tell what has left a store. -/
structure Telling (s : Site R) (offered entered : List Table) : Prop where
  /-- No live table is retired. -/
  live : ∀ t ∈ s.compactor.tables.live, t ∈ entered ∧ s.shelf.isRetired t = false
  /-- A table is retired if it was live before and is no longer. -/
  retired : ∀ t : Table, t.Alone offered →
    (s.shelf.isRetired t = true ↔ t ∈ entered ∧ t ∉ s.compactor.tables.live)
  /-- The tables of a job that is not resolved are live or retired. -/
  jobs : ∀ job ∈ s.compactor.waiting, ∀ t ∈ job.tables,
    t ∈ s.compactor.tables.live ∨ s.shelf.isRetired t = true

omit [Quantity R] in
theorem Marked.telling (marked : Marked gone s entered) {offered : List Table}
    (given : entered ⊆ offered) (known : ∀ t ∈ offered, t.Alone offered) :
    s.Telling offered entered := by
  have retired {t : Table} (alone : t.Alone offered) :
      s.shelf.isRetired t = true ↔ t ∈ entered ∧ t ∉ s.compactor.tables.live := by
    rw [Shelf.isRetired_eq, marked.marks]
    constructor
    · rintro ⟨u, enters, same, left⟩
      rw [← alone u (given enters) same]
      exact ⟨enters, left⟩
    · rintro ⟨enters, left⟩
      exact ⟨t, enters, rfl, left⟩
  refine ⟨fun t lives => ⟨marked.live lives, ?_⟩, fun t => retired, fun job waits t held => ?_⟩
  · have alone := known t (given (marked.live lives))
    rw [Bool.eq_false_iff, ne_eq, retired alone]
    exact fun left => left.2 lives
  · have enters := marked.jobs job waits held
    by_cases lives : t ∈ s.compactor.tables.live
    · exact .inl lives
    · exact .inr ((retired (known t (given enters))).2 ⟨enters, lives⟩)

omit [Quantity R] in
theorem marked_opened {s : Site R}
    (unmarked : ∀ place < s.shelf.holdings.size, s.shelf.marked place = false) (o : Opening R) :
    Marked (fun _ => False) (s.opened o) [] where
  live := List.Subset.refl _
  marks place := by
    have unmarked : s.shelf.marked place = false := by
      rcases Nat.lt_or_ge place s.shelf.holdings.size with inside | behind
      · exact unmarked place inside
      · exact Shelf.marked_of_le behind
    simp [opened, unmarked]
  shelved t enters := absurd enters List.not_mem_nil
  jobs job waits := absurd waits List.not_mem_nil
  stay _ given := given.elim

/-- Whatever is called in whatever order, and whatever tables are passed as the inputs of merges: as
long as no table is handed over once it is retired, and none as the output of a merge while it is
live, the retired tables are those that were live and have left. None of them comes back. -/
theorem run_retired_iff_left (s : Site R) (o : Opening R) (calls : List (Call R))
    (unmarked : ∀ place < s.shelf.holdings.size, s.shelf.marked place = false)
    (known : ∀ t ∈ (s.opened o).offered calls, t.Alone ((s.opened o).offered calls))
    (allowed : (s.opened o).AllowsAll calls) :
    ((s.opened o).run calls).Telling ((s.opened o).offered calls) ((s.opened o).entered calls) ∧
      ∀ before after, calls = before ++ after → ∀ t,
        ((s.opened o).run before).shelf.isRetired t = true →
          ((s.opened o).run calls).shelf.isRetired t = true := by
  have orderly := s.orderly_opened o
  have marked := marked_opened unmarked o
  refine ⟨?_, ?_⟩
  · have marked := marked.run orderly allowed
    exact marked.telling (entered_subset_offered _ _) known
  · rintro before after rfl t retired
    obtain ⟨first, rest⟩ := allowsAll_append.1 allowed
    have since : Marked (((s.opened o).run before).shelf.marked · = true) _ _ :=
      { marked.run orderly first with stay := fun _ => id }
    have orderly := orderly.acts (acts_run_any orderly before)
    rw [run, List.foldl_append]
    exact (since.run orderly rest).stay _ retired

/-- A table leaves although another one is passed under its ID, and so does a table of a job that
waits. IDs come back with other tables, and the last flush brings about a merge of its own. -/
theorem stand_in_is_not_retired :
    let unread : Holding Float := { meter := .fresh 0, retired := false }
    let s : Site Float := { sample with shelf := ⟨Array.replicate 12 unread⟩ }
    let table (place id : Nat) : Table := { id, size := 10, place }
    let before : List (Call Float) :=
      [.flush [table 0 1, table 1 2], .complete ⟨0⟩ [table 9 1] ⟨5⟩ [table 2 1], .enable,
        .flush [table 3 3, table 4 4, table 5 5], .complete ⟨0⟩ [table 10 2] ⟨5⟩ []]
    let t := (s.opened (.sample .keep)).run before
    let calls := before ++ [.elsewhere t.ids (t.shelf.add 77 10 (.fresh 0)).2 t.clock,
      .completeJob 0 [table 6 2], .setIntake .merge, .flush [table 7 7, table 8 8, table 11 9]]
    let u := (s.opened (.sample .keep)).run calls
    (List.range 14).filter u.shelf.marked = [0, 1, 2, 3, 4, 5, 6, 7, 8, 11] ∧
      u.compactor.tables.live.map (·.place) = [13] ∧
      u.Telling ((s.opened (.sample .keep)).offered calls)
        ((s.opened (.sample .keep)).entered calls) := by
  intro unread s table before t calls u
  have told := run_retired_iff_left s (.sample .keep) calls (by decide +kernel) (by decide +kernel)
    (by decide +kernel)
  exact ⟨by decide +kernel, by decide +kernel, told.1⟩

end Site

end TieredCompaction
