import TieredCompaction.Proofs.Binary64.Laws
import TieredCompaction.Proofs.Site.Calls
/-!
The number of merges due is exact as long as every bucket fits one job: evaluations start that many
jobs, each with all tables of one bucket, and then none.
-/
namespace TieredCompaction.Site

variable {R : Type} [Quantity R]

/-- Evaluations one after the other. Between them others may use what is shared. -/
def evaluations (s : Site R) (ids : Nat → IdSource) (shelves : Nat → Shelf R)
    (clocks : Nat → Clock) : Nat → Site R
  | 0 => s
  | n + 1 => (s.evaluations ids shelves clocks n).pass.1.elsewhere (ids n) (shelves n) (clocks n)

/-- The buckets that have enough tables for a job do not have too many. -/
def Fits (s : Site R) : Prop :=
  ∀ b ∈ s.buckets, s.compactor.thresholds.least ≤ b.length →
    b.length ≤ s.compactor.thresholds.greatest

/-- Compaction is enabled, jobs stay in the queue, and every bucket fits one job. -/
structure Exact (s : Site R) : Prop where
  on : s.compactor.enabled = true
  keeps : s.compactor.intake = .keep
  orderly : s.Orderly
  lawful : s.compactor.options.Lawful
  word : ∀ t ∈ s.compactor.tables.live, t.size < UInt64.size
  fits : s.Fits

/-- The tables of one bucket were handed over, whole, and the other buckets are as they were. -/
structure TakesBucket (s t : Site R) (job : Job R) (before : List (Bucket Table))
    (b : Bucket Table) (after : List (Bucket Table)) : Prop where
  buckets : s.buckets = before ++ b :: after
  enough : s.compactor.thresholds.least ≤ b.length
  whole : job.tables.Perm b.items
  submitted : t.compactor.submitted = s.compactor.submitted ++ [job]
  rest : t.buckets = before ++ after
  estimate : t.estimate + 1 = s.estimate

variable {s t : Site R}

omit [Quantity R] in
theorem ascending_candidates (word : ∀ t ∈ s.compactor.tables.live, t.size < UInt64.size) :
    Ascending (s.candidates.map fun t => (t, t.size)) where
  positive m member := by
    obtain ⟨t, held, rfl⟩ := List.mem_map.1 member
    exact (TableSet.mem_candidates.1 held).2.1.ne'
  word m member := by
    obtain ⟨t, held, rfl⟩ := List.mem_map.1 member
    exact word t (candidates_subset held).1
  sorted := List.pairwise_map.2 s.compactor.tables.sorted_candidates

theorem estimate_eq (s : Site R) :
    s.estimate = sumBy (Options.jobsDue s.compactor.thresholds) s.buckets := rfl

theorem buckets_handOver (s : Site R) (chosen : Selection R) :
    (s.handOver chosen).buckets = s.compactor.options.tableBuckets
      (s.candidates.filter fun t => !(chosen.tables.map (·.id)).contains t.id) := by
  rw [buckets, candidates_handOver, candidates_take, handOver_compactor]
  rfl

theorem Exact.takesBucket (exact : s.Exact) {chosen : Selection R}
    (some : s.selection = some chosen) :
    ∃ before b after, TakesBucket s (s.handOver chosen) (s.jobOf chosen) before b after := by
  obtain ⟨b, member, enough, taken⟩ := Options.bucket_of_select some
  obtain ⟨before, after, split⟩ := List.append_of_mem member
  have fits : b.length ≤ s.compactor.thresholds.greatest := exact.fits b member enough
  have whole : chosen.tables.Perm b.items := by
    rw [taken]
    exact Bucket.trim_perm _ fits
  have rest : (s.handOver chosen).buckets = before ++ after := by
    have same : ∀ t : Table, (chosen.tables.map (·.id)).contains t.id =
        (b.items.map (·.id)).contains t.id := fun t => (whole.map _).contains_eq
    rw [buckets_handOver, List.filter_congr fun t _ => congrArg _ (same t)]
    exact exact.lawful.tableBuckets_without (ascending_candidates exact.word)
      (TableSet.nodup_candidates exact.orderly.tables) split
  refine ⟨before, b, after, split, enough, whole, ?_, rest, ?_⟩
  · rw [handOver_compactor]
  · have one := Options.jobsDue_eq_one enough fits
    have thresholds : (s.handOver chosen).compactor.thresholds = s.compactor.thresholds := by
      rw [handOver_compactor]
      rfl
    have split : s.buckets = before ++ b :: after := split
    rw [estimate_eq, estimate_eq, rest, thresholds, split, sumBy_append, sumBy_append, sumBy_cons, one]
    omega

namespace Exact

/-- An act that leaves the settings, the live tables and the fit of the buckets as they are. -/
private theorem of_act (exact : s.Exact) (act : Act False s t)
    (enabled : t.compactor.enabled = s.compactor.enabled)
    (intake : t.compactor.intake = s.compactor.intake)
    (live : t.compactor.tables.live = s.compactor.tables.live) (fits : t.Fits) : t.Exact where
  on := enabled.trans exact.on
  keeps := intake.trans exact.keeps
  orderly := exact.orderly.act act
  lawful := options_act act ▸ exact.lawful
  word := live ▸ exact.word
  fits

theorem elsewhere (exact : s.Exact) (ids : IdSource) (shelf : Shelf R) (clock : Clock) :
    (s.elsewhere ids shelf clock).Exact :=
  exact.of_act (.elsewhere s ids shelf clock) rfl rfl rfl exact.fits

theorem passOver (exact : s.Exact) (none : s.selection = none) : s.passOver.Exact := by
  have same := s.passOver_compactor
  refine exact.of_act (.passOver exact.on none) (by rw [same]) (by rw [same]) (by rw [same]) ?_
  simp only [Fits, buckets, candidates, same]
  exact exact.fits

theorem handOver (exact : s.Exact) {chosen : Selection R} (some : s.selection = some chosen) :
    (s.handOver chosen).Exact := by
  have same := s.handOver_compactor chosen
  refine exact.of_act (.handOver exact.on some) (by rw [same]; rfl) (by rw [same]; rfl)
    (by rw [same]; rfl) ?_
  obtain ⟨before, b, after, taken⟩ := exact.takesBucket some
  intro c member
  rw [taken.rest] at member
  rw [same]
  refine exact.fits c ?_
  rw [taken.buckets]
  exact ((List.sublist_cons_self b after).append_left before).subset member

/-- An evaluation takes one bucket if a merge is due, and otherwise changes nothing of this. -/
theorem pass (exact : s.Exact) :
    s.pass.1.Exact ∧ (s.estimate = 0 → s.pass.2 = false ∧ s.pass.1.estimate = 0) ∧
      (0 < s.estimate → s.pass.2 = true ∧
        ∃ job before b after, TakesBucket s s.pass.1 job before b after) := by
  cases selected : s.selection with
  | none =>
    have none : s.estimate = 0 := selection_eq_none_iff.1 selected
    rw [Site.pass, passUpTo_none exact.on selected]
    exact ⟨exact.passOver selected, fun _ => ⟨rfl, s.estimate_passOver.trans none⟩,
      fun due => absurd none due.ne'⟩
  | some chosen =>
    have due : s.estimate ≠ 0 := by
      rw [Ne, ← selection_eq_none_iff, selected]
      exact Option.some_ne_none chosen
    obtain ⟨before, b, after, taken⟩ := exact.takesBucket selected
    rw [Site.pass, passUpTo_keep exact.orderly exact.on selected exact.keeps]
    exact ⟨exact.handOver selected, fun none => absurd none due,
      fun _ => ⟨rfl, s.jobOf chosen, before, b, after, taken⟩⟩

theorem evaluations (exact : s.Exact) (ids : Nat → IdSource) (shelves : Nat → Shelf R)
    (clocks : Nat → Clock) (n : Nat) :
    (s.evaluations ids shelves clocks n).Exact ∧
      (s.evaluations ids shelves clocks n).estimate = s.estimate - n := by
  induction n with
  | zero => exact ⟨exact, rfl⟩
  | succ n ih =>
    obtain ⟨exact, left⟩ := ih
    obtain ⟨after, idle, busy⟩ := exact.pass
    refine ⟨after.elsewhere _ _ _, ?_⟩
    -- no estimate depends on what is shared
    change (s.evaluations ids shelves clocks n).pass.1.estimate = _
    rcases Nat.eq_zero_or_pos (s.evaluations ids shelves clocks n).estimate with none | due
    · rw [(idle none).2]
      omega
    · obtain ⟨_, _, _, _, _, taken⟩ := busy due
      have one := taken.estimate
      omega

end Exact

open Options (membersOf membersOf_append membersOf_cons)

/-- With options in range, the buckets of ascending items stay as they are when one of them and its
members are taken out. Hence, while every bucket fits one job and the queue keeps its jobs, as many
evaluations start a job as there are merges due. Each one hands a whole bucket over. -/
theorem run_counts_down (s : Site Float) (o : Opening Float) (calls : List (Call Float))
    (inRange : Options.lowInRange o.options.low = true) :
    (∀ {α : Type} (items : List (α × Nat)), Ascending items →
      ∀ (before : List (Bucket α)) b after, o.options.buckets items = before ++ b :: after →
        items = membersOf before ++ b.members ++ membersOf after ∧
          o.options.buckets (membersOf before ++ membersOf after) = before ++ after) ∧
    let t := (s.opened o).run calls
    t.compactor.enabled = true → t.compactor.intake = .keep →
      (∀ table ∈ t.compactor.tables.live, table.size < UInt64.size) → t.Fits →
      ∀ ids shelves clocks n,
        let u := t.evaluations ids shelves clocks n
        u.estimate = t.estimate - n ∧
          (n < t.estimate → u.pass.2 = true ∧
            ∃ job before b after, TakesBucket u u.pass.1 job before b after) ∧
          (t.estimate ≤ n → u.pass.2 = false) := by
  have lawful : o.options.Lawful := Options.lawful_of_lowInRange inRange
  refine ⟨?_, ?_⟩
  · intro α items ascending before b after split
    obtain ⟨_, members⟩ := lawful.tiered_buckets ascending
    refine ⟨?_, lawful.buckets_without ascending split⟩
    rw [← members, split, membersOf_append, membersOf_cons, List.append_assoc]
  · intro t on keeps word fits ids shelves clocks n u
    have opened := s.orderly_opened o
    have orderly : t.Orderly := opened.acts (acts_run_any opened calls)
    have options : t.compactor.options = o.options := options_run opened calls
    have exact : t.Exact := ⟨on, keeps, orderly, options ▸ lawful, word, fits⟩
    obtain ⟨now, left⟩ := exact.evaluations ids shelves clocks n
    obtain ⟨_, idle, busy⟩ := now.pass
    refine ⟨left, fun more => busy ?_, fun done => (idle ?_).1⟩
    · rw [left]
      exact Nat.sub_pos_of_lt more
    · rw [left]
      exact Nat.sub_eq_zero_of_le done

/-- Tables of two sizes make two buckets, which two evaluations take. -/
theorem two_sizes_count_down :
    let large : List Table := (Table.samples [3, 4]).map fun table => { table with size := 10 ^ 9 }
    let calls : List (Call Float) :=
      [.setThresholds ⟨3, 4, by decide, by decide⟩, .enable,
        .flush (Table.samples [1, 2] ++ large), .setThresholds ⟨2, 2, by decide, by decide⟩]
    let t := (sample.opened (.sample .keep)).run calls
    let u := t.evaluations (fun _ => t.ids) (fun _ => t.shelf) (fun _ => t.clock)
    t.estimate = 2 ∧ (u 0).pass.2 = true ∧ (u 1).pass.2 = true ∧ (u 2).estimate = 0 ∧
      (u 2).pass.2 = false := by
  intro large calls t u
  have due : t.estimate = 2 := by decide +kernel
  have counts := (run_counts_down sample (.sample .keep) calls (by decide +kernel)).2
    (by decide +kernel) (by decide +kernel) (by decide +kernel) (by
      show ∀ b ∈ t.buckets, t.compactor.thresholds.least ≤ b.length →
        b.length ≤ t.compactor.thresholds.greatest
      decide +kernel) (fun _ => t.ids) (fun _ => t.shelf) (fun _ => t.clock)
  have first := (counts 0).2.1 (Nat.lt_of_lt_of_eq Nat.two_pos due.symm)
  have second := (counts 1).2.1 (Nat.lt_of_lt_of_eq Nat.one_lt_two due.symm)
  have last := (counts 2).2.2 due.le
  exact ⟨due, first.1, second.1, (counts 2).1.trans (congrArg (· - 2) due), last⟩

end TieredCompaction.Site
