import TieredCompaction.Proofs.Bucket.Runs
import TieredCompaction.Proofs.Site.Calls
import TieredCompaction.Proofs.Sorting
/-!
Items of one size stay together. The average of a bucket moves towards the size that it takes in,
and not beyond it; so the bucket takes in the next item of that size too, while the buckets in front
of it, which did not change, refuse it as before.
-/
namespace TieredCompaction

variable {α : Type} {R : Type} [Quantity R]

/-- Multiples of counts are in the order of the counts, after rounding. -/
structure Options.Monotone (o : Options R) : Prop extends o.Enclosing where
  low_mono : ∀ {m n : Nat}, m ≤ n → n < UInt64.size →
    Quantity.le (Quantity.ofNat m * o.low) (Quantity.ofNat n * o.low) = true
  high_mono : ∀ {m n : Nat}, m ≤ n → n < UInt64.size →
    Quantity.le (Quantity.ofNat m * o.high) (Quantity.ofNat n * o.high) = true

namespace Bucket

variable {b : Bucket α} {m : α × Nat}

theorem length_push (b : Bucket α) (m : α × Nat) : (b.push m).length = b.length + 1 := by
  simp [push, length]

theorem total_push (fits : b.total + m.2 < UInt64.size) : (b.push m).total = b.total + m.2 :=
  Nat.min_eq_left (Nat.le_sub_one_of_lt fits)

/-- The average moves towards the size that is taken in, and not beyond it. -/
theorem average_push (filled : 0 < b.length) (fits : b.total + m.2 < UInt64.size) :
    min b.average m.2 ≤ (b.push m).average ∧ (b.push m).average ≤ max b.average m.2 := by
  have before : b.average = b.total / b.length := by rw [average, Nat.max_eq_left filled]
  have after : (b.push m).average = (b.total + m.2) / (b.length + 1) := by
    rw [average, total_push fits, length_push, Nat.max_eq_left (Nat.le_add_left 1 _)]
  have floor : b.average * b.length ≤ b.total := before ▸ Nat.div_mul_le_self _ _
  have ceiling : b.total < (b.average + 1) * b.length := by
    rw [before, ← Nat.div_lt_iff_lt_mul filled]
    exact Nat.lt_succ_self _
  rw [after]
  constructor
  · have part : min b.average m.2 * b.length ≤ b.total :=
      (Nat.mul_le_mul_right _ (Nat.min_le_left _ _)).trans floor
    have last : min b.average m.2 ≤ m.2 := Nat.min_le_right _ _
    rw [Nat.le_div_iff_mul_le (Nat.succ_pos _), Nat.mul_succ]
    omega
  · have part : b.total < (max b.average m.2 + 1) * b.length :=
      ceiling.trans_le (Nat.mul_le_mul_right _ (Nat.succ_le_succ (Nat.le_max_left _ _)))
    have last : m.2 ≤ max b.average m.2 := Nat.le_max_right _ _
    refine Nat.le_of_lt_succ ((Nat.div_lt_iff_lt_mul (Nat.succ_pos _)).2 ?_)
    rw [Nat.succ_eq_add_one, Nat.mul_add_one]
    omega

end Bucket

namespace Options

variable {o : Options R}

/-- A bucket that takes in a size would do so with any average nearer to that size. -/
theorem Monotone.accepts_nearer (monotone : o.Monotone) {average nearer size : Nat}
    (word : average < UInt64.size) (sizeWord : size < UInt64.size)
    (low : min average size ≤ nearer) (high : nearer ≤ max average size)
    (accepted : o.accepts average size = true) : o.accepts nearer size = true := by
  have nearerWord : nearer < UInt64.size := high.trans_lt (Nat.max_lt.2 ⟨word, sizeWord⟩)
  simp only [accepts, similar, Bool.or_eq_true, Bool.and_eq_true, decide_eq_true_eq] at accepted ⊢
  rcases accepted with ⟨share, multiple⟩ | ⟨small, few⟩
  · refine .inl ?_
    rcases Nat.le_total average size with rises | falls
    · have above : average ≤ nearer := by omega
      have below : nearer ≤ size := by omega
      exact ⟨monotone.trans (monotone.low_le nearerWord) (monotone.mono below sizeWord),
        monotone.trans multiple (monotone.high_mono above nearerWord)⟩
    · have above : size ≤ nearer := by omega
      have below : nearer ≤ average := by omega
      exact ⟨monotone.trans (monotone.low_mono below word) share,
        monotone.trans (monotone.mono above nearerWord) (monotone.le_high nearerWord)⟩
  · exact .inr ⟨small, by omega⟩

theorem Monotone.accepts_again (monotone : o.Monotone) {b : Bucket α} {m : α × Nat}
    (filled : 0 < b.length) (fits : b.total + m.2 < UInt64.size)
    (accepted : o.accepts b.average m.2 = true) : o.accepts (b.push m).average m.2 = true := by
  obtain ⟨low, high⟩ := Bucket.average_push filled fits
  have word : b.average < UInt64.size := (Nat.div_le_self _ _).trans_lt (by omega)
  exact monotone.accepts_nearer word (by omega) low high accepted

/-- The first bucket that takes in a size takes in all items of that size that follow. -/
theorem Monotone.foldl_place_alike (monotone : o.Monotone) {front : List (Bucket α)}
    {b : Bucket α} {ms : List (α × Nat)} {size : Nat}
    (refused : ∀ c ∈ front, o.accepts c.average size = false)
    (accepted : o.accepts b.average size = true) (filled : 0 < b.length)
    (same : ∀ m ∈ ms, m.2 = size) (fits : b.total + sumBy (·.2) ms < UInt64.size)
    (back : List (Bucket α)) :
    ∃ c, ms.foldl o.place (front ++ b :: back) = front ++ c :: back ∧
      c.members = b.members ++ ms := by
  refine foldl_place_into (P := fun ms b => (∀ m ∈ ms, m.2 = size) ∧
    o.accepts b.average size = true ∧ 0 < b.length ∧ b.total + sumBy (·.2) ms < UInt64.size) ?_
    (fun c earlier m member => same m member ▸ refused c earlier) ⟨same, accepted, filled, fits⟩ back
  rintro m rest b ⟨same, accepted, filled, fits⟩
  obtain ⟨rfl, same⟩ := List.forall_mem_cons.1 same
  rw [sumBy_cons, ← Nat.add_assoc] at fits
  have room : b.total + m.2 < UInt64.size := Nat.lt_of_le_of_lt (Nat.le_add_right _ _) fits
  refine ⟨accepted, same, monotone.accepts_again filled room accepted, ?_, ?_⟩
  · exact Bucket.length_push b m ▸ Nat.succ_pos _
  · rwa [Bucket.total_push room]

/-- Items of one size all go into one bucket, whatever buckets there are. -/
theorem Monotone.exists_foldl_place (monotone : o.Monotone) {bs : List (Bucket α)}
    {ms : List (α × Nat)} {size : Nat} (nonempty : ms ≠ []) (same : ∀ m ∈ ms, m.2 = size)
    (filled : ∀ b ∈ bs, 0 < b.length)
    (fits : ∀ b ∈ bs, b.total + sumBy (·.2) ms < UInt64.size)
    (word : sumBy (·.2) ms < UInt64.size) :
    ∃ (i : Nat) (c : Bucket α) (left : List (α × Nat)), (ms.foldl o.place bs)[i]? = some c ∧
      c.members = left ++ ms ∧ (left = [] ∨ ∃ b ∈ bs, left = b.members) := by
  cases found : bs.find? (fun b => o.accepts b.average size) with
  | some b =>
    obtain ⟨accepted, front, back, rfl, refused⟩ := List.find?_eq_some_iff_append.1 found
    have member : b ∈ front ++ b :: back := List.mem_append_right _ List.mem_cons_self
    obtain ⟨c, all, members⟩ := monotone.foldl_place_alike
      (fun c earlier => by simpa using refused c earlier) accepted (filled b member) same
      (fits b member) back
    refine ⟨front.length, c, b.members, ?_, members, .inr ⟨b, member, rfl⟩⟩
    rw [all]
    simp
  | none =>
    have refused : ∀ b ∈ bs, o.accepts b.average size = false := fun b member => by
      simpa using List.find?_eq_none.1 found b member
    obtain ⟨m, rest, rfl⟩ := List.exists_cons_of_ne_nil nonempty
    obtain ⟨rfl, same⟩ := List.forall_mem_cons.1 same
    have started : o.place bs m = bs ++ [.single m] := by
      simpa [place] using place_append refused []
    have average : (Bucket.single m).average = m.2 := Nat.div_one m.2
    rw [sumBy_cons] at word
    have accepted : o.accepts (Bucket.single m).average m.2 = true := by
      rw [average]
      exact monotone.accepts_average (by omega)
    obtain ⟨c, all, members⟩ := monotone.foldl_place_alike refused accepted Nat.one_pos same word []
    refine ⟨bs.length, c, [], ?_, by rw [members]; rfl, .inl rfl⟩
    rw [List.foldl_cons, started, all]
    simp

/-- Items of one size that follow one another are together in one bucket, in their order, between
items that came before them and items that came after. -/
theorem Monotone.run_in_bucket (monotone : o.Monotone) {before ms after : List (α × Nat)}
    {size : Nat} (nonempty : ms ≠ []) (full : size ≠ 0) (same : ∀ m ∈ ms, m.2 = size)
    (fits : sumBy (·.2) (before ++ ms ++ after) < UInt64.size) :
    ∃ b ∈ o.buckets (before ++ ms ++ after), ∃ left right,
      b.members = left ++ ms ++ right ∧ left.Sublist before ∧ right.Sublist after := by
  rw [sumBy_append, sumBy_append] at fits
  have early : sumBy (·.2) before < UInt64.size := by omega
  have within : ∀ b ∈ o.buckets before, b.total + sumBy (·.2) ms < UInt64.size := by
    intro b member
    have part := sumBy_sublist (·.2) (sublist_of_mem_buckets member)
    rw [total_eq_sumBy early member]
    omega
  have filled : ∀ b ∈ o.buckets before, 0 < b.length := fun b member =>
    List.length_pos_of_ne_nil (of_mem_buckets (fun _ => word_of_sum early) member).1
  obtain ⟨i, c, left, found, members, origin⟩ :=
    monotone.exists_foldl_place nonempty same filled within (by omega)
  obtain ⟨d, right, held, grown, later⟩ := o.getElem?_foldl_place found (after.filter (·.2 ≠ 0))
  have kept : ms.filter (·.2 ≠ 0) = ms :=
    List.filter_eq_self.2 fun m member => decide_eq_true (same m member ▸ full)
  have scanned : o.buckets (before ++ ms ++ after) =
      (after.filter (·.2 ≠ 0)).foldl o.place (ms.foldl o.place (o.buckets before)) := by
    rw [buckets_append, buckets_append, kept]
  refine ⟨d, scanned ▸ List.mem_of_getElem? held, left, right, by rw [grown, members], ?_,
    later.trans List.filter_sublist⟩
  rcases origin with rfl | ⟨b, member, rfl⟩
  · exact List.nil_sublist _
  · exact sublist_of_mem_buckets member

theorem monotone_of_make {low high : Float} {minSize : Nat} {o : Options Float}
    (made : make low high minSize = .ok o) : o.Monotone := by
  obtain ⟨below, above⟩ := inRange_of_make made
  obtain ⟨_, _, share, _⟩ := Binary64.positive_of_lowInRange below
  obtain ⟨_, _, factor, _⟩ := Binary64.positive_of_highInRange above
  exact
    { enclosing_of_make made with
      low_mono := Binary64.ofNat_mul_mono share
      high_mono := Binary64.ofNat_mul_mono factor }

end Options

/-- In ascending order, the candidates of one size follow one another. -/
theorem TableSet.candidates_of_size (s : TableSet) (size : Nat) :
    ∃ before after,
      s.candidates = before ++ s.candidates.filter (·.size = size) ++ after := by
  have upTo := filter_append_filter_not (p := fun t : Table => t.size ≤ size)
    (s.sorted_candidates.imp fun ordered within => by
      simp only [decide_eq_true_eq] at within ⊢
      exact ordered.trans within)
  have below := filter_append_filter_not (p := fun t : Table => t.size < size)
    ((s.sorted_candidates.filter fun t => decide (t.size ≤ size)).imp fun ordered within => by
      simp only [decide_eq_true_eq] at within ⊢
      exact ordered.trans_lt within)
  have same : (s.candidates.filter (·.size ≤ size)).filter (fun t => !decide (t.size < size)) =
      s.candidates.filter (·.size = size) := by
    rw [List.filter_filter]
    refine List.filter_congr fun t _ => ?_
    rw [Bool.eq_iff_iff]
    simp only [Bool.and_eq_true, Bool.not_eq_true', decide_eq_false_iff_not, decide_eq_true_eq]
    omega
  rw [same] at below
  exact ⟨_, _, by rw [below, upTo]⟩

theorem Site.one_size_in_bucket {s : Site R} (monotone : s.compactor.options.Monotone)
    (fits : sumBy Table.size s.candidates < UInt64.size) {t : Table} (candidate : t ∈ s.candidates) :
    ∃ b ∈ s.buckets, s.candidates.filter (·.size = t.size) <:+: b.items := by
  obtain ⟨before, after, split⟩ := s.compactor.tables.candidates_of_size t.size
  have split : s.candidates = before ++ s.candidates.filter (·.size = t.size) ++ after := split
  generalize alike : s.candidates.filter (·.size = t.size) = run at split ⊢
  have held : t ∈ run := alike ▸ List.mem_filter.2 ⟨candidate, decide_eq_true rfl⟩
  have same : ∀ m ∈ run.map fun u => (u, u.size), m.2 = t.size := by
    rintro _ member
    obtain ⟨u, inside, rfl⟩ := List.mem_map.1 member
    rw [← alike, List.mem_filter] at inside
    exact of_decide_eq_true inside.2
  have sizes : sumBy (·.2) (s.candidates.map fun u => (u, u.size)) = sumBy Table.size s.candidates := by
    simp [sumBy, List.foldr_map]
  rw [← sizes, split, List.map_append, List.map_append] at fits
  obtain ⟨b, member, left, right, members, _⟩ := monotone.run_in_bucket
    (by simpa using List.ne_nil_of_mem held) (TableSet.mem_candidates.1 candidate).2.1.ne'
    same fits
  refine ⟨b, ?_, left.map (·.1), right.map (·.1), ?_⟩
  · rw [buckets, Options.tableBuckets, split, List.map_append, List.map_append]
    exact member
  · simp [Bucket.items, members, Function.comp_def]

/-- Options that are not refused put two items of one size, one right behind the other, into one
bucket, whatever comes before and after them. All candidates of one size at a store share a bucket. -/
theorem Options.alike_items_stay_together {low high : Float} {minSize : Nat} {o : Options Float}
    (made : make low high minSize = .ok o) :
    (∀ {α : Type} (before after : List (α × Nat)) (m n : α × Nat), m.2 = n.2 → m.2 ≠ 0 →
      sumBy (·.2) (before ++ [m, n] ++ after) < UInt64.size →
      ∃ b ∈ o.buckets (before ++ [m, n] ++ after), ∃ left right,
        b.members = left ++ [m, n] ++ right ∧ left.Sublist before ∧ right.Sublist after) ∧
    ∀ s : Site Float, s.compactor.options = o → sumBy Table.size s.candidates < UInt64.size →
      ∀ t ∈ s.candidates, ∃ b ∈ s.buckets, s.candidates.filter (·.size = t.size) <:+: b.items := by
  have monotone := monotone_of_make made
  refine ⟨fun before after m n same full fits => ?_, ?_⟩
  · refine monotone.run_in_bucket (List.cons_ne_nil _ _) full ?_ fits
    simp [same]
  · rintro s rfl fits t candidate
    exact s.one_size_in_bucket monotone fits candidate

/-- The first of two items of size 15 is the greatest that the bucket of the item of size 10 takes
in, and both would also fit the bucket of the item of size 20. -/
theorem Options.second_item_follows :
    let o : Options Float := { low := 0.5, high := 1.5, minSize := 0 }
    let before := [("a", 10), ("b", 20)]
    let alike := [("c", 15), ("d", 15)]
    let after := [("e", 16)]
    let t : Table := ⟨1, 15, 0⟩
    let tables : List Table := [t, ⟨2, 10, 1⟩, ⟨3, 15, 2⟩, ⟨4, 30, 3⟩, ⟨5, 15, 4⟩]
    let s := (Site.sample.opened { Opening.sample .keep with options := o }).run [.flush tables]
    make 0.5 1.5 0 = .ok o ∧ sumBy (·.2) (before ++ alike ++ after) < UInt64.size ∧
    (∃ b ∈ o.buckets (before ++ alike ++ after), ∃ left right,
      b.members = left ++ alike ++ right ∧ left.Sublist before ∧ right.Sublist after) ∧
    t ∈ s.candidates ∧ sumBy Table.size s.candidates < UInt64.size ∧
    ∃ b ∈ s.buckets, s.candidates.filter (·.size = t.size) <:+: b.items := by
  intro o before alike after t tables s
  have made : make 0.5 1.5 0 = .ok o := by
    rw [make, if_pos (by decide +kernel), if_pos (by decide +kernel)]
  have fits : sumBy (·.2) (before ++ alike ++ after) < UInt64.size := by decide
  have candidate : t ∈ s.candidates := by decide +kernel
  have room : sumBy Table.size s.candidates < UInt64.size := by decide +kernel
  have options : s.compactor.options = o := Site.options_run (Site.orderly_opened _ _) _
  obtain ⟨neighbours, candidates⟩ := alike_items_stay_together made
  exact ⟨made, fits, neighbours before after ("c", 15) ("d", 15) rfl (by decide) fits, candidate, room,
    candidates s options room t candidate⟩

end TieredCompaction
