import TieredCompaction.Proofs.Bucket.Ascending
import TieredCompaction.Proofs.Sorting
/-!
Small items. The average of a bucket is not above the greatest of its members; so a bucket of small
members takes in every small item, whatever the factors are. In ascending order the small items come
first, and the larger ones that join them by their size come behind them.
-/
namespace TieredCompaction

variable {α : Type} {R : Type} [Quantity R]

namespace Options

variable {o : Options R}

theorem accepts_small {average size : Nat} (few : average < o.minSize) (small : size < o.minSize) :
    o.accepts average size = true := by
  simp [accepts, few, small]

/-- Small items all go into one bucket. -/
theorem exists_buckets_small {items : List (α × Nat)} (nonempty : items.filter (·.2 ≠ 0) ≠ [])
    (small : ∀ m ∈ items, m.2 ≠ 0 → m.2 < o.minSize) :
    ∃ b, o.buckets items = [b] ∧ b.members = items.filter (·.2 ≠ 0) := by
  have small : ∀ m ∈ items.filter (·.2 ≠ 0), m.2 < o.minSize := fun m member => by
    obtain ⟨held, full⟩ := List.mem_filter.1 member
    exact small m held (of_decide_eq_true full)
  rw [buckets]
  obtain ⟨m, rest, same⟩ := List.exists_cons_of_ne_nil nonempty
  rw [same] at small ⊢
  obtain ⟨first, others⟩ := List.forall_mem_cons.1 small
  -- all members lie below the limit, and so does their average
  obtain ⟨top, limit⟩ : ∃ top, o.minSize = top + 1 := Nat.exists_eq_add_one.2 (Nat.zero_lt_of_lt first)
  have light : (Bucket.single m).total ≤ (Bucket.single m).length * top :=
    Bucket.light_single (by omega)
  have refused : ∀ c ∈ ([] : List (Bucket α)), ∀ n ∈ rest, o.accepts c.average n.2 = false :=
    fun _ member => absurd member List.not_mem_nil
  refine foldl_place_into (P := fun ms b => (∀ m ∈ ms, m.2 < o.minSize) ∧
    b.total ≤ b.length * top) ?_ refused ⟨others, light⟩ []
  rintro n later b ⟨small, light⟩
  obtain ⟨next, small⟩ := List.forall_mem_cons.1 small
  have few : b.average < o.minSize := limit ▸ Nat.lt_succ_of_le (Bucket.average_le light)
  exact ⟨accepts_small few next, small, Bucket.light_push light (by omega)⟩

/-- In ascending order the small items are the first members of the first bucket. -/
theorem head_buckets_small {items : List (α × Nat)} (sorted : items.Pairwise fun m n => m.2 ≤ n.2)
    (nonempty : items.filter (fun m => m.2 ≠ 0 ∧ m.2 < o.minSize) ≠ []) :
    ∃ b, (o.buckets items).head? = some b ∧
      items.filter (fun m => m.2 ≠ 0 ∧ m.2 < o.minSize) <+: b.members := by
  have split := filter_append_filter_not (p := fun m : α × Nat => m.2 < o.minSize)
    (sorted.imp fun ordered below => by
      simp only [decide_eq_true_eq] at below ⊢
      exact Nat.lt_of_le_of_lt ordered below)
  have full : (items.filter (·.2 < o.minSize)).filter (·.2 ≠ 0) =
      items.filter fun m => m.2 ≠ 0 ∧ m.2 < o.minSize := by
    rw [List.filter_filter]
    simp only [Bool.decide_and]
  rw [← full] at nonempty ⊢
  obtain ⟨b, first, members⟩ := exists_buckets_small nonempty fun m member _ =>
    of_decide_eq_true (List.mem_filter.1 member).2
  have found : (o.buckets (items.filter (·.2 < o.minSize)))[0]? = some b := by rw [first]; rfl
  obtain ⟨c, more, held, grown, _⟩ := o.getElem?_foldl_place found
    ((items.filter fun m => !decide (m.2 < o.minSize)).filter (·.2 ≠ 0))
  rw [← buckets_append, split] at held
  refine ⟨c, List.head?_eq_getElem? ▸ held, more, ?_⟩
  rw [grown, members]

/-- If all items that are not empty are small, they form one bucket, in any order; if there is none,
there is no bucket. In ascending order all small items are in the first bucket, in front of the
larger ones that join them. -/
theorem small_items_share_first_bucket (o : Options R) (items : List (α × Nat)) :
    ((∀ m ∈ items, m.2 ≠ 0 → m.2 < o.minSize) →
      (o.buckets items).map (·.members) =
        if items.all (·.2 = 0) then [] else [items.filter (·.2 ≠ 0)]) ∧
    ((items.Pairwise fun m n => m.2 ≤ n.2) → (∃ m ∈ items, m.2 ≠ 0 ∧ m.2 < o.minSize) →
      ∃ b, (o.buckets items).head? = some b ∧
        items.filter (fun m => m.2 ≠ 0 ∧ m.2 < o.minSize) <+: b.members) := by
  refine ⟨fun small => ?_, fun sorted ⟨m, held, small⟩ => ?_⟩
  · by_cases empty : items.filter (·.2 ≠ 0) = []
    · have none : items.all (·.2 = 0) = true := by simpa [List.filter_eq_nil_iff] using empty
      rw [if_pos none, buckets, empty]
      rfl
    · have filled : ¬ items.all (·.2 = 0) = true := by simpa [List.filter_eq_nil_iff] using empty
      obtain ⟨b, one, members⟩ := exists_buckets_small empty small
      rw [if_neg filled, one, List.map_cons, members, List.map_nil]
  · exact head_buckets_small sorted
      (List.ne_nil_of_mem (List.mem_filter.2 ⟨held, decide_eq_true small⟩))

/-- Of three items of the sizes 9, 3 and 40 none would join another by its size. An item of size 10 is
too large to be small, and joins the small ones by its size. -/
theorem small_items_join :
    let o : Options Float := { low := 0.5, high := 1.5, minSize := 50 }
    let items := [("a", 9), ("b", 0), ("c", 3), ("d", 40)]
    let few : Options Float := { o with minSize := 10 }
    let ordered := [("b", 0), ("c", 3), ("a", 9), ("e", 9), ("f", 10), ("d", 40)]
    ((o.buckets items).map (·.members) = [[("a", 9), ("c", 3), ("d", 40)]]) ∧
    (∃ b, (few.buckets ordered).head? = some b ∧ [("c", 3), ("a", 9), ("e", 9)] <+: b.members) ∧
    (few.buckets ordered).map (·.members.length) = [4, 1] := by
  intro o items few ordered
  obtain ⟨any, _⟩ := small_items_share_first_bucket o items
  obtain ⟨_, ascending⟩ := small_items_share_first_bucket few ordered
  exact ⟨any (by decide), ascending (by decide) ⟨("c", 3), by decide⟩, by decide +kernel⟩

end Options

end TieredCompaction
