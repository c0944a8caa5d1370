import TieredCompaction.Proofs.Binary64.Laws
import TieredCompaction.Proofs.Bucket.FirstMatch
/-!
Buckets of ascending items, one beside the other. With factors in range a bucket takes in whatever
has the size of its average; so what it refuses lies above the average, and the buckets, which are
consecutive runs of the items, have rising averages.
-/
namespace TieredCompaction

variable {α : Type} {R : Type} [Quantity R]

/-- The multiples of a count, after rounding, enclose it. -/
structure Options.Enclosing (o : Options R) : Prop extends o.Lawful where
  le_high : ∀ {n : Nat}, n < UInt64.size →
    Quantity.le (Quantity.ofNat n) (Quantity.ofNat n * o.high) = true

namespace Bucket

theorem sumBy_le {ms : List (α × Nat)} {top : Nat} (below : ∀ m ∈ ms, m.2 ≤ top) :
    sumBy (·.2) ms ≤ ms.length * top := by
  induction ms with
  | nil => simp
  | cons m rest ih =>
    have first := below m List.mem_cons_self
    have others := ih fun n member => below n (List.mem_cons_of_mem _ member)
    rw [sumBy_cons, List.length_cons, Nat.succ_mul]
    omega

theorem le_sumBy {ms : List (α × Nat)} {bottom : Nat} (above : ∀ m ∈ ms, bottom ≤ m.2) :
    ms.length * bottom ≤ sumBy (·.2) ms := by
  induction ms with
  | nil => simp
  | cons m rest ih =>
    have first := above m List.mem_cons_self
    have others := ih fun n member => above n (List.mem_cons_of_mem _ member)
    rw [sumBy_cons, List.length_cons, Nat.succ_mul]
    omega

theorem le_average {b : Bucket α} {bottom : Nat} (exact : b.total = sumBy (·.2) b.members)
    (filled : b.members ≠ []) (above : ∀ m ∈ b.members, bottom ≤ m.2) : bottom ≤ b.average := by
  have some : 0 < b.members.length := List.length_pos_of_ne_nil filled
  have most : max b.length 1 = b.members.length := Nat.max_eq_left some
  rw [average, most, exact, Nat.le_div_iff_mul_le some, Nat.mul_comm]
  exact le_sumBy above

end Bucket

namespace Options

variable {o : Options R}

theorem Enclosing.accepts_average (enclosing : o.Enclosing) {n : Nat} (word : n < UInt64.size) :
    o.accepts n n = true := by
  simp only [accepts, similar, enclosing.low_le word, enclosing.le_high word, Bool.and_self, Bool.true_or]

theorem word_of_sum {items : List (α × Nat)} (fits : sumBy (·.2) items < UInt64.size) {m : α × Nat}
    (member : m ∈ items) : m.2 < UInt64.size := by
  have part := sumBy_sublist (·.2) (List.singleton_sublist.2 member)
  rw [sumBy_cons, sumBy_nil] at part
  omega

theorem ascending_of_sum {items : List (α × Nat)} (positive : ∀ m ∈ items, 0 < m.2)
    (sorted : items.Pairwise fun m n => m.2 ≤ n.2) (fits : sumBy (·.2) items < UInt64.size) :
    Ascending items where
  positive m member := (positive m member).ne'
  word _ member := word_of_sum fits member
  sorted := sorted

/-- No total reaches the greatest sum if all sizes together do not. -/
theorem total_eq_sumBy {items : List (α × Nat)} (fits : sumBy (·.2) items < UInt64.size)
    {b : Bucket α} (member : b ∈ o.buckets items) : b.total = sumBy (·.2) b.members := by
  have total := (of_mem_buckets (fun _ => word_of_sum fits) member).2
  have part : sumBy (·.2) b.members ≤ Bucket.maxTotal := by
    have within := sumBy_sublist (·.2) (sublist_of_mem_buckets member)
    rw [Bucket.maxTotal]
    omega
  rw [total, Nat.min_eq_left part]

theorem Enclosing.averages_rise (enclosing : o.Enclosing) {items : List (α × Nat)}
    (ascending : Ascending items) (fits : sumBy (·.2) items < UInt64.size) :
    (o.buckets items).Pairwise fun b c => b.average < c.average := by
  obtain ⟨tiered, members⟩ := enclosing.tiered_buckets ascending
  have sorted : (o.buckets items).Pairwise fun b c => ∀ m ∈ b.members, ∀ n ∈ c.members, m.2 ≤ n.2 := by
    have sizes := ascending.sorted
    rw [← members] at sizes
    exact (List.pairwise_flatMap.1 sizes).2
  refine (tiered.apart.and sorted).imp_of_mem ?_
  rintro b c held behind ⟨refused, below⟩
  have exact := total_eq_sumBy fits held
  have filled := (of_mem_buckets ascending.word behind).1
  refine Bucket.le_average (total_eq_sumBy fits behind) filled fun n inside => ?_
  have light : b.total ≤ b.length * n.2 := by
    rw [exact]
    exact Bucket.sumBy_le fun m within => below m within n inside
  refine lt_of_le_of_ne (Bucket.average_le light) fun same => ?_
  -- the bucket would have taken in an item that has the size of its average
  have word : n.2 < UInt64.size := by
    refine ascending.word n ?_
    rw [← members]
    exact List.mem_flatMap.2 ⟨c, behind, inside⟩
  have accepted := enclosing.accepts_average word
  have refused := refused n inside
  rw [same, accepted] at refused
  cases refused

theorem Lawful.joins_newest (lawful : o.Lawful) {before : List (α × Nat)} {m : α × Nat}
    (ascending : Ascending (before ++ [m])) :
    (∃ done last, o.buckets before = done ++ [last] ∧
      o.buckets (before ++ [m]) = done ++ [last.push m]) ∨
    o.buckets (before ++ [m]) = o.buckets before ++ [.single m] := by
  have within : ∀ n ∈ before, n.2 ≤ m.2 := fun n member =>
    (List.pairwise_append.1 ascending.sorted).2.2 n member m (List.mem_singleton_self m)
  have last : m ∈ before ++ [m] := List.mem_append_right _ (List.mem_singleton_self m)
  obtain ⟨rising, _⟩ :=
    lawful.rising_buckets (ascending.sublist (List.sublist_append_left before [m])) within
  rw [buckets_concat, if_neg (ascending.positive m last)]
  rcases rising.place_newest le_rfl (ascending.word m last) with
    ⟨done, newest, same, _, placed⟩ | ⟨_, placed⟩
  · exact .inl ⟨done, newest, same, placed⟩
  · exact .inr placed

theorem enclosing_of_make {low high : Float} {minSize : Nat} {o : Options Float}
    (made : make low high minSize = .ok o) : o.Enclosing := by
  obtain ⟨below, above⟩ := inRange_of_make made
  refine { lawful_of_lowInRange below with le_high := fun {n} word => ?_ }
  obtain ⟨_, _, factor, more⟩ := Binary64.positive_of_highInRange above
  by_cases some : 0 < n
  · obtain ⟨_, _, number, _⟩ := Binary64.positive_ofNat some word
    exact number.le_mul factor more
  · obtain rfl : n = 0 := Nat.eq_zero_of_not_pos some
    exact Binary64.le_zero_mul factor

/-- Options that are not refused cut a list of items in ascending order into consecutive runs with
rising averages: each item joins the newest bucket or starts one. -/
theorem buckets_are_runs {low high : Float} {minSize : Nat} {o : Options Float}
    (made : make low high minSize = .ok o) {items : List (α × Nat)}
    (positive : ∀ m ∈ items, 0 < m.2) (sorted : items.Pairwise fun m n => m.2 ≤ n.2)
    (fits : sumBy (·.2) items < UInt64.size) :
    membersOf (o.buckets items) = items ∧
    (∀ before m after, items = before ++ m :: after →
      (∃ done last, o.buckets before = done ++ [last] ∧
        o.buckets (before ++ [m]) = done ++ [last.push m]) ∨
      o.buckets (before ++ [m]) = o.buckets before ++ [.single m]) ∧
    (o.buckets items).Pairwise fun b c => b.average < c.average := by
  have enclosing := enclosing_of_make made
  have ascending := ascending_of_sum positive sorted fits
  refine ⟨(enclosing.tiered_buckets ascending).2, ?_, enclosing.averages_rise ascending fits⟩
  rintro before m after rfl
  have begun : (before ++ [m]).Sublist (before ++ m :: after) := by simp
  exact enclosing.joins_newest (ascending.sublist begun)

/-- The first two buckets take small items of any size, the last ones by ratio. -/
theorem small_items_then_large :
    let o : Options Float := { low := 0.5, high := 1.5, minSize := 20 }
    let items := [("a", 1), ("b", 12), ("c", 19), ("d", 20), ("e", 28), ("f", 10 ^ 18)]
    make 0.5 1.5 20 = .ok o ∧ (∀ m ∈ items, 0 < m.2) ∧ (items.Pairwise fun m n => m.2 ≤ n.2) ∧
    sumBy (·.2) items < UInt64.size ∧
    membersOf (o.buckets items) = items ∧ (o.buckets items).map (·.average) = [10, 24, 10 ^ 18] := by
  intro o items
  have made : make 0.5 1.5 20 = .ok o := by
    rw [make, if_pos (by decide +kernel), if_pos (by decide +kernel)]
  have positive : ∀ m ∈ items, 0 < m.2 := by decide
  have sorted : items.Pairwise fun m n => m.2 ≤ n.2 := by decide
  have fits : sumBy (·.2) items < UInt64.size := by decide
  have averages : (o.buckets items).map (·.average) = [10, 24, 10 ^ 18] := by decide +kernel
  exact ⟨made, positive, sorted, fits, (buckets_are_runs made positive sorted fits).1, averages⟩

end Options

end TieredCompaction
