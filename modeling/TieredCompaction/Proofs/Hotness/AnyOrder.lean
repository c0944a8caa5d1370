import TieredCompaction.Proofs.Ranking
/-!
The hotness of a bucket does not depend on the order of its members, to the last bit. A sum of
rounded numbers does depend on the order; but rates are sorted before they are cut off and added up,
and only equal numbers share a rank, so that there is one order in which they can come.
-/
namespace TieredCompaction

variable {α β : Type} {R N : Type} [Quantity R] [LinearOrder N] {rank : R → N}

/-- Numbers of one rank are one number: both zeros have ranks of their own. -/
theorem Binary64.rank_injective : Function.Injective Binary64.rank := by
  intro x y same
  have bits : x.toModel.toBits = y.toModel.toBits := toBits_eq_of_rank_eq same
  obtain ⟨⟨_, _⟩⟩ := x
  obtain ⟨⟨_, _⟩⟩ := y
  cases bits
  rfl

/-- Rates, the highest one first. -/
def falling (rates : List R) : List R :=
  sortBy (fun x y => Quantity.rankLe y x) rates

/-- Where numbers have ranks of their own, the same rates come in the same order. -/
theorem falling_eq_of_perm (ranked : Quantity.RankedBy rank) (own : Function.Injective rank)
    {rates others : List R} (same : rates.Perm others) : falling rates = falling others := by
  apply sortBy_eq_of_perm _ _ _ same
  · intro x y z first second
    exact ranked.trans second first
  · intro x y
    exact ranked.total _ _
  · intro x _ y _ less more
    rw [ranked.rankLe_iff] at less more
    exact own (le_antisymm more less)

namespace Bucket

variable {rate : α → R} {other : β → R} {limit : Nat} {b : Bucket α} {c : Bucket β}

theorem rates_byRate (rate : α → R) (members : List (α × Nat)) :
    (byRate rate members).map (fun x => rate x.1) = falling (members.map fun x => rate x.1) := by
  have compared (x y : α × Nat) : (fun p q : R => Quantity.rankLe q p) (rate x.1) (rate y.1) =
      Quantity.rankLe (rate y.1) (rate x.1) := rfl
  exact (sortBy_map compared members).symm

/-- A job takes the highest rates of a bucket. -/
theorem rates_trim :
    (b.trim rate limit).items.map rate = (falling (b.items.map rate)).take limit := by
  have sorted := rates_byRate rate b.members
  simp only [Trimmed.items, items, List.map_map, Function.comp_def, trim_members, ← sorted,
    List.map_take]

theorem hotness_trim_eq :
    (b.trim rate limit).hotness = sumRates ((b.trim rate limit).items.map rate) := by
  simp only [trim_hotness, Trimmed.items, List.map_map, Function.comp_def]

theorem trim_eq_of_perm (ranked : Quantity.RankedBy rank) (own : Function.Injective rank)
    (same : (b.items.map rate).Perm (c.items.map other)) :
    (b.trim rate limit).items.map rate = (c.trim other limit).items.map other ∧
      (b.trim rate limit).hotness = (c.trim other limit).hotness := by
  have kept : (b.trim rate limit).items.map rate = (c.trim other limit).items.map other := by
    rw [rates_trim, rates_trim, falling_eq_of_perm ranked own same]
  constructor
  · exact kept
  · rw [hotness_trim_eq, hotness_trim_eq, kept]

/-- Of two buckets with the same rates, in whatever order, the same rates are taken, each as often
and in one order, however many a job may hold. Hence the buckets are as hot, to the last bit. -/
theorem hotness_in_any_order {rate : α → Float} {other : β → Float}
    (same : (b.items.map rate).Perm (c.items.map other)) (limit : Nat) :
    (b.trim rate limit).items.map rate = (c.trim other limit).items.map other ∧
      (b.trim rate limit).hotness = (c.trim other limit).hotness :=
  trim_eq_of_perm Quantity.rankedBy_binary64 Binary64.rank_injective same

/-- Next to a great rate, two small ones get lost one by one, but not if they are added up first;
and the two zeros are told apart. The buckets are as hot nevertheless. -/
theorem great_rate_first_or_last :
    let rate (n : Nat) : Float := [1, 1e16, -0.0, 1, 0.0].getD n 0
    let other (n : Nat) : Float := [0.0, 1, 1, -0.0, 1e16].getD n 0
    let b : Bucket Nat := { members := [(0, 7), (1, 7), (2, 7), (3, 7), (4, 7)], total := 35 }
    (b.items.map rate).Perm (b.items.map other) ∧
      sumRates [(1 : Float), 1, 1e16] ≠ sumRates [1e16, (1 : Float), 1] ∧
      (b.trim rate 4).items = [1, 0, 3, 4] ∧ (b.trim other 4).items = [4, 1, 2, 0] ∧
      (b.trim rate 4).items.map rate = (b.trim other 4).items.map other ∧
      (b.trim rate 4).hotness = (b.trim other 4).hotness := by
  intro rate other b
  have same : (b.items.map rate).Perm (b.items.map other) := by decide +kernel
  have orders : sumRates [(1 : Float), 1, 1e16] ≠ sumRates [1e16, (1 : Float), 1] := by
    decide +kernel
  obtain ⟨kept, hotness⟩ := hotness_in_any_order same 4
  exact ⟨same, orders, by decide +kernel, by decide +kernel, kept, hotness⟩

end Bucket

end TieredCompaction
