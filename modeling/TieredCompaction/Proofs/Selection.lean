import Mathlib.Algebra.Order.Floor.Div
import Mathlib.GroupTheory.GroupAction.Ring
import TieredCompaction.Proofs.Bucket.Conservation
/-!
When there is a selection, and what it holds: tables of one bucket, as many as a job has at least,
each at most as often as it was given. There is none iff no merge is due; the merges due are the jobs
that hold all tables of the buckets that are large enough (`estimate_eq_sum`).
-/
namespace TieredCompaction

variable {α : Type} {R : Type} [Quantity R]
  {o : Options R} {t : Thresholds} {rate : Table → R} {tables : List Table}

theorem perm_ranked (rate : α → R) (least greatest : Nat) (bs : List (Bucket α)) :
    (ranked rate least greatest bs).Perm
      ((bs.filter (least ≤ ·.length)).map (·.trim rate greatest)) :=
  perm_sortBy _ _

namespace Options

theorem select_eq_none_iff :
    o.select t rate tables = none ↔ ∀ b ∈ o.tableBuckets tables, b.length < t.least := by
  have none : o.select t rate tables = none ↔
      ranked rate t.least t.greatest (o.tableBuckets tables) = [] := by
    simp [select]
  rw [none, ← List.length_eq_zero_iff, (perm_ranked rate _ _ _).length_eq]
  simp

/-- A selection comes from a bucket with enough members. -/
theorem bucket_of_select {chosen : Selection R} (some : o.select t rate tables = some chosen) :
    ∃ b ∈ o.tableBuckets tables, t.least ≤ b.length ∧
      chosen.tables = (b.trim rate t.greatest).items := by
  simp only [select, Option.map_eq_some_iff] at some
  obtain ⟨top, first, rfl⟩ := some
  have member := (perm_ranked rate _ _ _).mem_iff.1 (List.mem_of_head? first)
  obtain ⟨b, qualified, rfl⟩ := List.mem_map.1 member
  obtain ⟨member, enough⟩ := List.mem_filter.1 qualified
  exact ⟨b, member, by simpa using enough, rfl⟩

theorem select_subperm {chosen : Selection R} (some : o.select t rate tables = some chosen) :
    chosen.tables.Subperm tables := by
  obtain ⟨b, member, _, taken⟩ := bucket_of_select some
  rw [taken]
  exact (Bucket.trim_subperm _ _ _).trans (items_subperm member)

theorem least_le_length_select {chosen : Selection R}
    (some : o.select t rate tables = some chosen) : t.least ≤ chosen.tables.length := by
  obtain ⟨b, _, enough, taken⟩ := bucket_of_select some
  rw [taken, Bucket.length_trim]
  exact Nat.le_min.2 ⟨t.least_le_greatest, enough⟩

/-- A selection depends on the rates of the tables given only. -/
theorem select_congr {other : Table → R} (same : ∀ x ∈ tables, rate x = other x) :
    o.select t rate tables = o.select t other tables := by
  have trimmed : ∀ b ∈ (o.tableBuckets tables).filter (t.least ≤ ·.length),
      b.trim rate t.greatest = b.trim other t.greatest := by
    intro b member
    have given := (items_subperm (List.mem_of_mem_filter member)).subset
    refine Bucket.trim_congr fun x held => same x.1 (given ?_)
    exact List.mem_map_of_mem held
  rw [select, select, ranked, ranked, List.map_congr_left trimmed]

theorem jobsDue_eq {b : Bucket Table} (enough : t.least ≤ b.length) :
    jobsDue t b = b.length ⌈/⌉ t.greatest := by
  have two := t.two_le_least
  have large := t.least_le_greatest
  have same : max t.greatest 1 = t.greatest := by omega
  rw [jobsDue, if_pos enough, same, Nat.ceilDiv_eq_add_pred_div]

/-- A bucket that is large enough needs as many jobs as can hold its tables, and no more. -/
theorem jobsDue_le_iff {b : Bucket Table} (enough : t.least ≤ b.length) {jobs : Nat} :
    jobsDue t b ≤ jobs ↔ b.length ≤ t.greatest * jobs := by
  have two := t.two_le_least
  have large := t.least_le_greatest
  have positive : 0 < t.greatest := by omega
  rw [jobsDue_eq enough, ceilDiv_le_iff_le_mul positive]

theorem jobsDue_eq_zero_iff {b : Bucket Table} : jobsDue t b = 0 ↔ b.length < t.least := by
  have two := t.two_le_least
  by_cases enough : t.least ≤ b.length
  · rw [← Nat.le_zero, jobsDue_le_iff enough]
    omega
  · rw [jobsDue, if_neg enough]
    omega

theorem jobsDue_eq_one {b : Bucket Table} (enough : t.least ≤ b.length)
    (fits : b.length ≤ t.greatest) : jobsDue t b = 1 := by
  have some : jobsDue t b ≠ 0 := fun none => by
    rw [jobsDue_eq_zero_iff] at none
    omega
  have one : jobsDue t b ≤ 1 := (jobsDue_le_iff enough).2 (by omega)
  omega

/-- The merges due are the jobs that hold all tables of the buckets that are large enough, if each job
takes as many tables as it may from one bucket. -/
theorem estimate_eq_sum (o : Options R) (t : Thresholds) (tables : List Table) :
    o.estimate t tables =
      (((o.tableBuckets tables).filter (t.least ≤ ·.length)).map (·.length ⌈/⌉ t.greatest)).sum := by
  rw [estimate]
  generalize o.tableBuckets tables = bs
  induction bs with
  | nil => rfl
  | cons b rest ih =>
    rw [sumBy_cons, ih]
    by_cases enough : t.least ≤ b.length
    · simp [enough, jobsDue_eq enough]
    · have none : jobsDue t b = 0 := jobsDue_eq_zero_iff.2 (Nat.lt_of_not_le enough)
      simp [enough, none]

theorem estimate_eq_zero_iff :
    o.estimate t tables = 0 ↔ ∀ b ∈ o.tableBuckets tables, b.length < t.least := by
  simp only [estimate, sumBy_eq_zero_iff, jobsDue_eq_zero_iff]

theorem select_eq_none_iff_estimate : o.select t rate tables = none ↔ o.estimate t tables = 0 :=
  select_eq_none_iff.trans estimate_eq_zero_iff.symm

end Options

end TieredCompaction
