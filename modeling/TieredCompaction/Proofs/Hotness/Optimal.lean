import Mathlib.Algebra.BigOperators.Ring.List
import Mathlib.Algebra.Order.Field.Basic
import Mathlib.Order.Bounds.Basic
import TieredCompaction.Proofs.Hotness.AnyOrder
import TieredCompaction.Proofs.Raising
/-!
Hotness in exact arithmetic. No job of a bucket could be hotter than the one that is ranked; all
ranked buckets together are no hotter than all tables; and hotness is measured in any unit: reads
per minute rank as reads per second do.
-/
namespace TieredCompaction

variable {α β : Type} {K : Type} [Field K]

/-- What some items weigh together. -/
def summed (weight : α → K) (items : List α) : K :=
  (items.map weight).sum

/-- Rates in another unit. -/
def rescaled (c : K) (rate : α → K) (x : α) : K :=
  c * rate x

/-- The same members, as hot in another unit. -/
def Trimmed.scaled (c : K) (t : Trimmed α K) : Trimmed α K :=
  { t with hotness := c * t.hotness }

/-- The sums of rates that some of the items have, of which a job can hold no more than `limit`. -/
def reachable (rate : α → K) (limit : Nat) (items : List α) : Set K :=
  {sum | ∃ picked : List α, picked.Subperm items ∧ picked.length ≤ limit ∧ summed rate picked = sum}

theorem summed_rescaled (c : K) (rate : α → K) (items : List α) :
    summed (rescaled c rate) items = c * summed rate items :=
  List.sum_map_mul_left ..

theorem summed_flatMap (weight : α → K) (part : β → List α) (bs : List β) :
    summed weight (bs.flatMap part) = summed (fun b => summed weight (part b)) bs := by
  rw [summed, List.map_flatMap, List.flatMap_def, List.sum_flatten, List.map_map]
  rfl

variable [LinearOrder K] [IsStrictOrderedRing K]

/-- Some of the items weigh no more than all. -/
theorem summed_le_of_subperm {weight : α → K} {xs ys : List α} (fewer : xs.Subperm ys)
    (nonneg : ∀ y ∈ ys, 0 ≤ weight y) : summed weight xs ≤ summed weight ys := by
  obtain ⟨part, same, sublist⟩ := fewer
  rw [summed, summed, ← (same.map weight).sum_eq]
  apply (sublist.map weight).sum_le_sum
  intro w member
  obtain ⟨y, held, rfl⟩ := List.mem_map.1 member
  exact nonneg y held

variable [Gauge K]

namespace Bucket

variable {rate : α → K} {limit : Nat} {b : Bucket α}

omit [IsStrictOrderedRing K] in
theorem hotness_trim_summed :
    (b.trim rate limit).hotness = summed rate (b.trim rate limit).items := by
  rw [hotness_trim_eq, sumRates_exact, summed]

omit [IsStrictOrderedRing K] in
theorem items_trim_eq :
    (b.trim rate limit).items = ((byRate rate b.members).map (·.1)).take limit := by
  rw [Trimmed.items, trim_members, List.map_take]

omit [IsStrictOrderedRing K] in
theorem falling_items (rate : α → K) (b : Bucket α) :
    ((byRate rate b.members).map (·.1)).Pairwise fun x y => rate y ≤ rate x := by
  rw [List.pairwise_map]
  exact (hottestFirst_byRate Quantity.rankedBy_exact rate b.members).falling

/-- What is taken of a bucket is as hot as anything that could be taken. An item that is not among
the hottest could be exchanged for one that is. -/
theorem isGreatest_hotness_trim (nonneg : ∀ x ∈ b.items, 0 ≤ rate x) :
    IsGreatest (reachable rate limit b.items) (b.trim rate limit).hotness := by
  have same : ((byRate rate b.members).map (·.1)).Perm b.items := (perm_sortBy _ b.members).map _
  constructor
  · refine ⟨(b.trim rate limit).items, trim_subperm rate limit b, ?_, hotness_trim_summed.symm⟩
    rw [length_trim]
    exact min_le_left _ _
  · rintro sum ⟨picked, held, few, rfl⟩
    have fewer := List.take_sublist_take_left (l := (byRate rate b.members).map (·.1)) few
    calc summed rate picked
        ≤ summed rate (((byRate rate b.members).map (·.1)).take picked.length) :=
          sum_le_sum_take (falling_items rate b) (held.trans same.symm.subperm)
      _ ≤ summed rate (((byRate rate b.members).map (·.1)).take limit) := by
          apply summed_le_of_subperm fewer.subperm
          intro x kept
          exact nonneg x (same.subset (List.mem_of_mem_take kept))
      _ = (b.trim rate limit).hotness := by rw [hotness_trim_summed, items_trim_eq]

theorem hotness_trim_le (nonneg : ∀ x ∈ b.items, 0 ≤ rate x) (limit : Nat) :
    (b.trim rate limit).hotness ≤ summed rate b.items := by
  rw [hotness_trim_summed]
  exact summed_le_of_subperm (trim_subperm rate limit b) nonneg

end Bucket

omit [IsStrictOrderedRing K] in
/-- Each ranked bucket comes from one of the buckets with enough members. -/
theorem exists_sources (rate : α → K) (least greatest : Nat) (bs : List (Bucket α)) :
    ∃ sources : List (Bucket α), sources.Perm (bs.filter (least ≤ ·.length)) ∧
      ranked rate least greatest bs = sources.map (·.trim rate greatest) :=
  ⟨_, perm_sortBy _ _, sortBy_map (fun _ _ => rfl) _⟩

theorem summed_hotness_le {rate : α → K} {bs : List (Bucket α)}
    (nonneg : ∀ b ∈ bs, ∀ x ∈ b.items, 0 ≤ rate x) (least greatest : Nat) :
    summed (·.hotness) (ranked rate least greatest bs) ≤ summed rate (bs.flatMap (·.items)) := by
  obtain ⟨sources, same, taken⟩ := exists_sources rate least greatest bs
  have enough : sources.Subperm bs := same.subperm.trans List.filter_sublist.subperm
  calc summed (·.hotness) (ranked rate least greatest bs)
      ≤ summed (fun b => summed rate b.items) sources := by
        rw [summed, summed, taken, List.map_map]
        apply List.sum_le_sum
        intro b member
        exact Bucket.hotness_trim_le (nonneg b (enough.subset member)) greatest
    _ ≤ summed (fun b => summed rate b.items) bs := by
        apply summed_le_of_subperm enough
        intro b held
        apply List.sum_nonneg
        intro r member
        obtain ⟨x, inside, rfl⟩ := List.mem_map.1 member
        exact nonneg b held x inside
    _ = summed rate (bs.flatMap (·.items)) := (summed_flatMap ..).symm

section Scaled

variable {rate : α → K} {c : K}

theorem rankLe_scaled (positive : 0 < c) (x y : K) :
    Quantity.rankLe (c * x) (c * y) = Quantity.rankLe x y :=
  decide_eq_decide.2 (mul_le_mul_iff_right₀ positive)

theorem byRate_rescaled (positive : 0 < c) (rate : α → K) (members : List (α × Nat)) :
    byRate (rescaled c rate) members = byRate rate members := by
  simp only [byRate, rescaled, rankLe_scaled positive]

theorem Bucket.trim_rescaled (positive : 0 < c) (rate : α → K) (limit : Nat) (b : Bucket α) :
    b.trim (rescaled c rate) limit = (b.trim rate limit).scaled c := by
  have members : (b.trim (rescaled c rate) limit).members = (b.trim rate limit).members := by
    rw [trim_members, trim_members, byRate_rescaled positive]
  have hotness : (b.trim (rescaled c rate) limit).hotness = c * (b.trim rate limit).hotness := by
    rw [hotness_trim_summed, hotness_trim_summed, summed_rescaled, Trimmed.items, members,
      Trimmed.items]
  exact (Trimmed.mk.injEq ..).mpr ⟨members, hotness⟩

theorem Trimmed.before_scaled (positive : 0 < c) (x y : Trimmed α K) :
    (x.scaled c).before (y.scaled c) = x.before y := by
  have average (t : Trimmed α K) : (t.scaled c).average = t.average := rfl
  simp only [before, average]
  simp only [scaled, rankLe_scaled positive]
  rfl

/-- Ranking does not depend on the unit of rates. -/
theorem ranked_rescaled (positive : 0 < c) (rate : α → K) (least greatest : Nat)
    (bs : List (Bucket α)) :
    ranked (rescaled c rate) least greatest bs =
      (ranked rate least greatest bs).map (·.scaled c) := by
  rw [ranked, ranked, ← sortBy_map (Trimmed.before_scaled positive), List.map_map]
  simp only [Bucket.trim_rescaled positive, Function.comp_def]

end Scaled

/-- In exact arithmetic, each ranked bucket is as hot as the hottest job that its members could
make; the hotnesses add up to no more than the rates of all tables, if no table is in two places;
and if all rates are multiplied by a positive factor, the same tables come in the same order, and
each hotness is multiplied by it. -/
theorem hotness_best_bounded_linear {tables : List α} {rate : α → K} {bs : List (Bucket α)}
    (nonneg : ∀ x ∈ tables, 0 ≤ rate x) (inside : ∀ b ∈ bs, b.items ⊆ tables)
    (distinct : ∀ b ∈ bs, b.items.Nodup)
    (disjoint : bs.Pairwise fun b c => b.items.Disjoint c.items) (least greatest : Nat) :
    (∃ sources : List (Bucket α), sources.Perm (bs.filter (least ≤ ·.length)) ∧
      ranked rate least greatest bs = sources.map (·.trim rate greatest) ∧
      ∀ b ∈ sources,
        IsGreatest (reachable rate greatest b.items) (b.trim rate greatest).hotness) ∧
    summed (·.hotness) (ranked rate least greatest bs) ≤ summed rate tables ∧
    ∀ c, 0 < c → ranked (rescaled c rate) least greatest bs =
      (ranked rate least greatest bs).map (·.scaled c) := by
  have given : ∀ b ∈ bs, ∀ x ∈ b.items, 0 ≤ rate x := by
    intro b member x held
    exact nonneg x (inside b member held)
  refine ⟨?_, ?_, ?_⟩
  · obtain ⟨sources, same, taken⟩ := exists_sources rate least greatest bs
    refine ⟨sources, same, taken, ?_⟩
    intro b member
    exact Bucket.isGreatest_hotness_trim
      (given b (List.mem_of_mem_filter (same.subset member)))
  · have once : (bs.flatMap (·.items)).Nodup := List.nodup_flatMap.2 ⟨distinct, disjoint⟩
    have fewer : (bs.flatMap (·.items)).Subperm tables := by
      apply List.subperm_of_subset once
      intro x member
      obtain ⟨b, held, found⟩ := List.mem_flatMap.1 member
      exact inside b held found
    calc summed (·.hotness) (ranked rate least greatest bs)
        ≤ summed rate (bs.flatMap (·.items)) := summed_hotness_le given least greatest
      _ ≤ summed rate tables := summed_le_of_subperm fewer nonneg
  · intro c positive
    exact ranked_rescaled positive rate least greatest bs

/-- Three buckets of tables. The first one is trimmed, with a tie among the rates that are kept; the
second one is as hot and has as many members left; the third one is too small to be ranked. -/
theorem trimmed_and_tied_buckets :
    let rate (n : Nat) : ℚ := [1 / 2, 3, 0, 3, 4, 2, 7].getD n 0
    let b : Bucket Nat := { members := [(0, 10), (1, 12), (2, 10), (3, 11)], total := 43 }
    let c : Bucket Nat := { members := [(4, 50), (5, 60)], total := 110 }
    let d : Bucket Nat := { members := [(6, 900)], total := 900 }
    let tables := List.range 7
    (∀ x ∈ tables, 0 ≤ rate x) ∧ (∀ a ∈ [c, d, b], a.items ⊆ tables) ∧
      (∀ a ∈ [c, d, b], a.items.Nodup) ∧
      ([c, d, b].Pairwise fun a a' => a.items.Disjoint a'.items) ∧
      ((ranked rate 2 2 [c, d, b]).map fun t => (t.items, t.hotness)) = [([1, 3], 6), ([4, 5], 6)] ∧
      summed (·.hotness) (ranked rate 2 2 [c, d, b]) ≤ summed rate tables ∧
      ranked (rescaled 2 rate) 2 2 [c, d, b] = (ranked rate 2 2 [c, d, b]).map (·.scaled 2) := by
  intro rate b c d tables
  have nonneg : ∀ x ∈ tables, 0 ≤ rate x := by decide +kernel
  have inside : ∀ a ∈ [c, d, b], a.items ⊆ tables := by decide +kernel
  have distinct : ∀ a ∈ [c, d, b], a.items.Nodup := by decide +kernel
  have disjoint : [c, d, b].Pairwise fun a a' => a.items.Disjoint a'.items := by
    simp [b, c, d, Bucket.items]
  obtain ⟨_, bounded, linear⟩ := hotness_best_bounded_linear nonneg inside distinct disjoint 2 2
  exact ⟨nonneg, inside, distinct, disjoint, by decide +kernel, bounded, linear 2 two_pos⟩

end TieredCompaction
