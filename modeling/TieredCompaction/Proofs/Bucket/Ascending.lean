import TieredCompaction.Proofs.Bucket.Conservation
/-!
Buckets of items in ascending order of size. An item joins the newest bucket or starts a new one,
so the buckets are consecutive runs of the items. A bucket refuses whatever lies behind it, in later
buckets; hence the others stay as they are when one bucket and its members are taken out.
-/
namespace TieredCompaction

variable {α : Type} {R : Type} [Quantity R]

/-- The laws of numbers that the buckets of ascending items depend on. Counts are below `2 ^ 64`. -/
structure Options.Lawful (o : Options R) : Prop where
  trans : ∀ {x y z : R}, Quantity.le x y = true → Quantity.le y z = true → Quantity.le x z = true
  mono : ∀ {m n : Nat}, m ≤ n → n < UInt64.size →
    Quantity.le (Quantity.ofNat m : R) (Quantity.ofNat n) = true
  low_le : ∀ {n : Nat}, n < UInt64.size →
    Quantity.le (Quantity.ofNat n * o.low) (Quantity.ofNat n) = true

/-- Items with sizes of 64 bits that are not zero and do not go down. -/
structure Ascending (items : List (α × Nat)) : Prop where
  positive : ∀ m ∈ items, m.2 ≠ 0
  word : ∀ m ∈ items, m.2 < UInt64.size
  sorted : items.Pairwise fun m n => m.2 ≤ n.2

theorem Ascending.sublist {items others : List (α × Nat)} (ascending : Ascending items)
    (fewer : others.Sublist items) : Ascending others where
  positive m member := ascending.positive m (fewer.subset member)
  word m member := ascending.word m (fewer.subset member)
  sorted := ascending.sorted.sublist fewer

namespace Options

variable {o : Options R}

/-- A bucket that takes in a size takes in all sizes between its average and that size. -/
theorem Lawful.accepts_between (lawful : o.Lawful) {average size more : Nat}
    (above : average ≤ size) (between : size ≤ more) (word : more < UInt64.size)
    (accepted : o.accepts average more = true) : o.accepts average size = true := by
  have small : size < UInt64.size := Nat.lt_of_le_of_lt between word
  simp only [accepts, similar, Bool.or_eq_true, Bool.and_eq_true, decide_eq_true_eq] at accepted ⊢
  rcases accepted with ⟨_, high⟩ | ⟨less, low⟩
  · have low := lawful.trans (lawful.low_le (Nat.lt_of_le_of_lt above small)) (lawful.mono above small)
    exact .inl ⟨low, lawful.trans (lawful.mono between word) high⟩
  · exact .inr ⟨Nat.lt_of_le_of_lt between less, low⟩

/-- Items that a bucket refuses are placed as if it were not there. -/
theorem place_append {done : List (Bucket α)} {m : α × Nat}
    (refused : ∀ b ∈ done, o.accepts b.average m.2 = false) (bs : List (Bucket α)) :
    o.place (done ++ bs) m = done ++ o.place bs m := by
  induction done with
  | nil => rfl
  | cons b rest ih =>
    obtain ⟨first, others⟩ := List.forall_mem_cons.1 refused
    rw [List.cons_append, place, first, ih others]
    rfl

theorem foldl_place_append {done : List (Bucket α)} {ms : List (α × Nat)}
    (refused : ∀ b ∈ done, ∀ m ∈ ms, o.accepts b.average m.2 = false) (bs : List (Bucket α)) :
    ms.foldl o.place (done ++ bs) = done ++ ms.foldl o.place bs := by
  induction ms generalizing bs with
  | nil => rfl
  | cons m rest ih =>
    rw [List.foldl_cons, List.foldl_cons,
      place_append fun b member => refused b member m List.mem_cons_self]
    exact ih (fun b member n later => refused b member n (List.mem_cons_of_mem _ later)) _

/-- Items that a bucket takes in one after the other, while those in front of it refuse them. What
makes the bucket take in the next item may depend on the items that are still to come. -/
theorem foldl_place_into {P : List (α × Nat) → Bucket α → Prop}
    (taken : ∀ {m rest b}, P (m :: rest) b → o.accepts b.average m.2 = true ∧ P rest (b.push m))
    {front : List (Bucket α)} {b : Bucket α} {ms : List (α × Nat)}
    (refused : ∀ c ∈ front, ∀ m ∈ ms, o.accepts c.average m.2 = false) (ready : P ms b)
    (back : List (Bucket α)) :
    ∃ c, ms.foldl o.place (front ++ b :: back) = front ++ c :: back ∧
      c.members = b.members ++ ms := by
  induction ms generalizing b with
  | nil => exact ⟨b, rfl, (List.append_nil _).symm⟩
  | cons m rest ih =>
    obtain ⟨accepted, next⟩ := taken ready
    obtain ⟨c, all, members⟩ := ih (fun c earlier n later =>
      refused c earlier n (List.mem_cons_of_mem _ later)) next
    have placed : o.place (front ++ b :: back) m = front ++ b.push m :: back := by
      rw [place_append fun c earlier => refused c earlier m List.mem_cons_self, place, if_pos accepted]
    refine ⟨c, by rw [List.foldl_cons, placed, all], ?_⟩
    rw [members, Bucket.push, List.append_assoc, List.singleton_append]

/-- Each bucket comes about from its own members alone, and refuses those of later buckets. -/
structure Tiered (o : Options R) (bs : List (Bucket α)) : Prop where
  alone : ∀ b ∈ bs, b.members.foldl o.place [] = [b]
  apart : bs.Pairwise fun b c => ∀ m ∈ c.members, o.accepts b.average m.2 = false

theorem Tiered.sublist {bs cs : List (Bucket α)} (tiered : o.Tiered bs) (fewer : cs.Sublist bs) :
    o.Tiered cs where
  alone b member := tiered.alone b (fewer.subset member)
  apart := tiered.apart.sublist fewer

/-- Such buckets come about again from all their members. -/
theorem Tiered.rebuild {bs : List (Bucket α)} (tiered : o.Tiered bs) :
    (membersOf bs).foldl o.place [] = bs := by
  induction bs with
  | nil => rfl
  | cons b rest ih =>
    have ih := ih (tiered.sublist (List.sublist_cons_self b rest))
    have refused : ∀ c ∈ [b], ∀ m ∈ membersOf rest, o.accepts c.average m.2 = false := by
      intro c same m member
      obtain ⟨later, held, inside⟩ := List.mem_flatMap.1 member
      rw [List.mem_singleton.1 same]
      exact (List.pairwise_cons.1 tiered.apart).1 later held m inside
    have behind := foldl_place_append refused []
    rw [List.append_nil] at behind
    rw [membersOf_cons, List.foldl_append, tiered.alone b List.mem_cons_self, behind, ih]
    rfl

/-- What holds of the buckets of ascending items up to a size: only the newest one can take in an
item that is still to come. -/
structure Rising (o : Options R) (top : Nat) (bs : List (Bucket α)) : Prop where
  tiered : o.Tiered bs
  light : ∀ b ∈ bs, b.total ≤ b.length * top
  closed : ∀ b ∈ bs.dropLast, ∀ size, top ≤ size → size < UInt64.size →
    o.accepts b.average size = false

end Options

namespace Bucket

variable {b : Bucket α} {m : α × Nat} {top : Nat}

theorem average_le (light : b.total ≤ b.length * top) : b.average ≤ top := by
  refine Nat.div_le_of_le_mul (Nat.le_trans light ?_)
  exact Nat.mul_le_mul_right top (Nat.le_max_left _ _)

theorem light_single (within : m.2 ≤ top) : (single m).total ≤ (single m).length * top := by
  simpa [single, length] using within

theorem light_push (light : b.total ≤ b.length * top) (within : m.2 ≤ top) :
    (b.push m).total ≤ (b.push m).length * top := by
  have more : (b.push m).total ≤ b.total + m.2 := Nat.min_le_left _ _
  have longer : (b.push m).length = b.length + 1 := by simp [push, length]
  rw [longer, Nat.succ_mul]
  omega

end Bucket

namespace Options

variable {o : Options R}

theorem Rising.nil (o : Options R) (top : Nat) : o.Rising top ([] : List (Bucket α)) where
  tiered := ⟨fun _ member => absurd member List.not_mem_nil, .nil⟩
  light _ member := absurd member List.not_mem_nil
  closed _ member := absurd member List.not_mem_nil

private theorem light_mono {b : Bucket α} {top more : Nat} (light : b.total ≤ b.length * top)
    (higher : top ≤ more) : b.total ≤ b.length * more :=
  Nat.le_trans light (Nat.mul_le_mul_left _ higher)

private theorem Rising.push {done : List (Bucket α)} {last : Bucket α} {top : Nat} {m : α × Nat}
    (rising : o.Rising top (done ++ [last])) (higher : top ≤ m.2) (word : m.2 < UInt64.size)
    (accepted : o.accepts last.average m.2 = true) : o.Rising m.2 (done ++ [last.push m]) := by
  have closed := rising.closed
  rw [List.dropLast_concat] at closed
  refine ⟨⟨?_, ?_⟩, ?_, ?_⟩
  · intro b member
    rcases List.mem_append.1 member with old | new
    · exact rising.tiered.alone b (List.mem_append_left _ old)
    · -- the last bucket came about alone, so the next item finds nothing else to join
      have alone := rising.tiered.alone last (List.mem_append_right _ (List.mem_singleton_self _))
      rw [List.mem_singleton.1 new, Bucket.push, List.foldl_concat, alone, place, if_pos accepted]
      rfl
  · have apart := List.pairwise_append.1 rising.tiered.apart
    refine List.pairwise_append.2 ⟨apart.1, List.pairwise_singleton _ _, ?_⟩
    intro b old c new n inside
    rw [List.mem_singleton.1 new] at inside
    rcases List.mem_append.1 inside with before | now
    · exact apart.2.2 b old last (List.mem_singleton_self _) n before
    · rw [List.mem_singleton.1 now]
      exact closed b old m.2 higher word
  · intro b member
    rcases List.mem_append.1 member with old | new
    · exact light_mono (rising.light b (List.mem_append_left _ old)) higher
    · rw [List.mem_singleton.1 new]
      have light := rising.light last (List.mem_append_right _ (List.mem_singleton_self _))
      exact Bucket.light_push (light_mono light higher) (Nat.le_refl _)
  · rw [List.dropLast_concat]
    exact fun b member size above => closed b member size (Nat.le_trans higher above)

/-- The next item starts a bucket, and no later item will go back to those before. -/
private theorem Rising.start (lawful : o.Lawful) {bs : List (Bucket α)} {top : Nat} {m : α × Nat}
    (rising : o.Rising top bs) (higher : top ≤ m.2) (word : m.2 < UInt64.size)
    (refused : ∀ b ∈ bs, o.accepts b.average m.2 = false) : o.Rising m.2 (bs ++ [.single m]) := by
  have closed : ∀ b ∈ bs, ∀ size, m.2 ≤ size → size < UInt64.size →
      o.accepts b.average size = false := by
    intro b member size above small
    rw [Bool.eq_false_iff]
    intro accepted
    have low := Bucket.average_le (rising.light b member)
    have between := lawful.accepts_between (Nat.le_trans low higher) above small accepted
    exact absurd ((refused b member).symm.trans between) Bool.false_ne_true
  refine ⟨⟨?_, ?_⟩, ?_, ?_⟩
  · intro b member
    rcases List.mem_append.1 member with old | new
    · exact rising.tiered.alone b old
    · rw [List.mem_singleton.1 new]
      rfl
  · refine List.pairwise_append.2 ⟨rising.tiered.apart, List.pairwise_singleton _ _, ?_⟩
    intro b old c new n inside
    rw [List.mem_singleton.1 new] at inside
    rw [List.mem_singleton.1 inside]
    exact closed b old m.2 (Nat.le_refl _) word
  · intro b member
    rcases List.mem_append.1 member with old | new
    · exact light_mono (rising.light b old) higher
    · rw [List.mem_singleton.1 new]
      exact Bucket.light_single (Nat.le_refl _)
  · rw [List.dropLast_concat]
    exact closed

/-- The next item joins the newest bucket, or all buckets refuse it and it starts one. -/
theorem Rising.place_newest {bs : List (Bucket α)} {top : Nat} {m : α × Nat}
    (rising : o.Rising top bs) (higher : top ≤ m.2) (word : m.2 < UInt64.size) :
    (∃ done last, bs = done ++ [last] ∧ o.accepts last.average m.2 = true ∧
      o.place bs m = done ++ [last.push m]) ∨
    (∀ b ∈ bs, o.accepts b.average m.2 = false) ∧ o.place bs m = bs ++ [.single m] := by
  rcases List.eq_nil_or_concat bs with rfl | ⟨done, last, rfl⟩
  · exact .inr ⟨fun _ member => absurd member List.not_mem_nil, rfl⟩
  · rw [List.concat_eq_append] at rising ⊢
    have refused : ∀ b ∈ done, o.accepts b.average m.2 = false := fun b member =>
      rising.closed b (by rw [List.dropLast_concat]; exact member) m.2 higher word
    rw [place_append refused, Options.place]
    cases accepted : o.accepts last.average m.2 with
    | true => exact .inl ⟨done, last, rfl, accepted, rfl⟩
    | false =>
      refine .inr ⟨?_, ?_⟩
      · intro b member
        rcases List.mem_append.1 member with old | new
        · exact refused b old
        · rw [List.mem_singleton.1 new]
          exact accepted
      · simp [Options.place]

theorem Rising.place (lawful : o.Lawful) {bs : List (Bucket α)} {top : Nat} {m : α × Nat}
    (rising : o.Rising top bs) (higher : top ≤ m.2) (word : m.2 < UInt64.size) :
    o.Rising m.2 (o.place bs m) ∧ membersOf (o.place bs m) = membersOf bs ++ [m] := by
  rcases rising.place_newest higher word with ⟨done, last, rfl, accepted, placed⟩ | ⟨refused, placed⟩
  · rw [placed]
    refine ⟨rising.push higher word accepted, ?_⟩
    simp [membersOf, Bucket.push]
  · rw [placed]
    refine ⟨Rising.start lawful rising higher word refused, ?_⟩
    simp [membersOf, Bucket.single]

theorem Rising.mono {bs : List (Bucket α)} {top more : Nat} (rising : o.Rising top bs)
    (higher : top ≤ more) : o.Rising more bs where
  tiered := rising.tiered
  light b member := light_mono (rising.light b member) higher
  closed b member size above := rising.closed b member size (Nat.le_trans higher above)

theorem Rising.foldl_place (lawful : o.Lawful) {bs : List (Bucket α)} {top most : Nat}
    {ms : List (α × Nat)} (rising : o.Rising top bs) (higher : ∀ m ∈ ms, top ≤ m.2)
    (ascending : Ascending ms) (below : top ≤ most) (within : ∀ m ∈ ms, m.2 ≤ most) :
    o.Rising most (ms.foldl o.place bs) ∧ membersOf (ms.foldl o.place bs) = membersOf bs ++ ms := by
  -- the bound rises with each item, to the size of the one placed last
  induction ms generalizing bs top with
  | nil => exact ⟨rising.mono below, (List.append_nil _).symm⟩
  | cons m rest ih =>
    obtain ⟨placed, members⟩ := Rising.place lawful rising (higher m List.mem_cons_self)
      (ascending.word m List.mem_cons_self)
    obtain ⟨first, _⟩ := List.pairwise_cons.1 ascending.sorted
    obtain ⟨risen, all⟩ := ih placed first (ascending.sublist (List.sublist_cons_self m rest))
      (within m List.mem_cons_self) fun n later => within n (List.mem_cons_of_mem _ later)
    refine ⟨risen, ?_⟩
    rw [List.foldl_cons, all, members, List.append_assoc, List.singleton_append]

theorem buckets_of_positive {items : List (α × Nat)} (positive : ∀ m ∈ items, m.2 ≠ 0) :
    o.buckets items = items.foldl o.place [] := by
  rw [buckets, List.filter_eq_self.2 fun m member => decide_eq_true (positive m member)]

theorem Lawful.rising_buckets (lawful : o.Lawful) {items : List (α × Nat)} {most : Nat}
    (ascending : Ascending items) (within : ∀ m ∈ items, m.2 ≤ most) :
    o.Rising most (o.buckets items) ∧ membersOf (o.buckets items) = items := by
  rw [buckets_of_positive ascending.positive]
  exact Rising.foldl_place lawful (Rising.nil o 0) (fun _ _ => Nat.zero_le _) ascending
    (Nat.zero_le _) within

/-- The buckets of ascending items are consecutive runs of them. -/
theorem Lawful.tiered_buckets (lawful : o.Lawful) {items : List (α × Nat)}
    (ascending : Ascending items) :
    o.Tiered (o.buckets items) ∧ membersOf (o.buckets items) = items := by
  obtain ⟨rising, members⟩ := lawful.rising_buckets ascending fun m member =>
    Nat.le_of_lt (ascending.word m member)
  exact ⟨rising.tiered, members⟩

/-- Without the members of one bucket, the other buckets come about as before. -/
theorem Lawful.buckets_without (lawful : o.Lawful) {items : List (α × Nat)}
    (ascending : Ascending items) {before after : List (Bucket α)} {b : Bucket α}
    (split : o.buckets items = before ++ b :: after) :
    o.buckets (membersOf before ++ membersOf after) = before ++ after := by
  obtain ⟨tiered, members⟩ := lawful.tiered_buckets ascending
  rw [split] at tiered members
  have fewer : (before ++ after).Sublist (before ++ b :: after) :=
    (List.Sublist.refl before).append (List.sublist_cons_self b after)
  have positive : ∀ m ∈ membersOf (before ++ after), m.2 ≠ 0 := by
    intro m member
    refine ascending.positive m (members ▸ ?_)
    obtain ⟨c, held, inside⟩ := List.mem_flatMap.1 member
    exact List.mem_flatMap.2 ⟨c, fewer.subset held, inside⟩
  rw [← membersOf_append, buckets_of_positive positive]
  exact (tiered.sublist fewer).rebuild

private theorem filter_apart {before tables after : List Table}
    (distinct : ((before ++ tables ++ after).map (·.id)).Nodup) :
    (before ++ tables ++ after).filter (fun t => !(tables.map (·.id)).contains t.id) =
      before ++ after := by
  rw [List.map_append, List.map_append, List.nodup_append, List.nodup_append] at distinct
  obtain ⟨⟨_, _, apart⟩, _, behind⟩ := distinct
  have gone : tables.filter (fun t => !(tables.map (·.id)).contains t.id) = [] := by
    rw [List.filter_eq_nil_iff]
    intro t member
    simpa using ⟨t, member, rfl⟩
  have first : before.filter (fun t => !(tables.map (·.id)).contains t.id) = before := by
    rw [List.filter_eq_self]
    intro t member
    simpa using fun u inside same =>
      apart t.id (List.mem_map_of_mem member) u.id (List.mem_map_of_mem inside) same.symm
  have last : after.filter (fun t => !(tables.map (·.id)).contains t.id) = after := by
    rw [List.filter_eq_self]
    intro t member
    simpa using fun u inside same =>
      behind u.id (List.mem_append_right _ (List.mem_map_of_mem inside)) t.id
        (List.mem_map_of_mem member) same
  rw [List.filter_append, List.filter_append, first, gone, last, List.append_nil]

private theorem sized_of_subset {tables : List Table} {ms : List (Table × Nat)}
    (subset : ms ⊆ tables.map fun t => (t, t.size)) :
    (ms.map (·.1)).map (fun t => (t, t.size)) = ms := by
  rw [List.map_map]
  conv_rhs => rw [← List.map_id ms]
  refine List.map_congr_left fun m member => ?_
  obtain ⟨t, _, rfl⟩ := List.mem_map.1 (subset member)
  rfl

/-- Without the tables of one bucket, the buckets of tables in ascending order are the others. -/
theorem Lawful.tableBuckets_without (lawful : o.Lawful) {tables : List Table}
    (ascending : Ascending (tables.map fun t => (t, t.size))) (distinct : (tables.map (·.id)).Nodup)
    {before after : List (Bucket Table)} {b : Bucket Table}
    (split : o.tableBuckets tables = before ++ b :: after) :
    o.tableBuckets (tables.filter fun t => !(b.items.map (·.id)).contains t.id) =
      before ++ after := by
  obtain ⟨_, members⟩ := lawful.tiered_buckets ascending
  have rebuilt := lawful.buckets_without ascending split
  rw [show o.buckets _ = _ from split, membersOf_append, membersOf_cons, ← List.append_assoc] at members
  have whole : (membersOf before).map (·.1) ++ b.items ++ (membersOf after).map (·.1) = tables := by
    have firsts := congrArg (List.map (·.1)) members
    simpa [Bucket.items, Function.comp_def] using firsts
  rw [← whole] at distinct
  have others := filter_apart distinct
  rw [whole] at others
  have first : membersOf before ⊆ tables.map fun t => (t, t.size) := by
    rw [← members, List.append_assoc]
    exact List.subset_append_left _ _
  have last : membersOf after ⊆ tables.map fun t => (t, t.size) := by
    rw [← members]
    exact List.subset_append_right _ _
  rw [others, tableBuckets, List.map_append, sized_of_subset first, sized_of_subset last, rebuilt]

end Options

end TieredCompaction
