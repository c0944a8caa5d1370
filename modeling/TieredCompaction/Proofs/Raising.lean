import TieredCompaction.Proofs.Exact
import TieredCompaction.Proofs.Ranking
import TieredCompaction.Proofs.TableSet
import Mathlib.Algebra.Order.BigOperators.Group.List
import Mathlib.Algebra.Order.Monoid.Prod
import Mathlib.Algebra.Order.Ring.Int
import Mathlib.Algebra.Order.Ring.Rat
/-!
More reads of a table never cost its bucket the choice, in exact arithmetic. Members of one rate come
by size, so what is taken of a bucket has the greatest sum of rates that so many members can have,
and the least sum of sizes among all that have it. A rate that rises hence leaves the bucket hotter,
or as hot and not larger.
-/
namespace TieredCompaction

variable {α : Type}

/-- The first items of a falling list weigh the most. -/
theorem sum_le_sum_take {G : Type} [AddCommMonoid G] [LinearOrder G] [IsOrderedAddMonoid G]
    {weight : α → G} {xs ys : List α} (falling : xs.Pairwise fun x y => weight y ≤ weight x)
    (fewer : ys.Subperm xs) : (ys.map weight).sum ≤ ((xs.take ys.length).map weight).sum := by
  obtain ⟨zs, perm, sublist⟩ := fewer
  rw [← (perm.map weight).sum_eq, ← perm.length_eq]
  clear perm
  induction xs generalizing zs with
  | nil => simp [List.sublist_nil.1 sublist]
  | cons x rest ih =>
    cases zs with
    | nil => simp
    | cons z others =>
      obtain ⟨first, later⟩ := List.pairwise_cons.1 falling
      have heavier : weight z ≤ weight x := by
        rcases List.mem_cons.1 (sublist.subset List.mem_cons_self) with rfl | member
        · exact le_rfl
        · exact first z member
      have others := ih later others sublist.of_cons_cons
      simpa using add_le_add heavier others

variable {K : Type} [Field K] [LinearOrder K] [Gauge K]

theorem Quantity.rankedBy_exact : Quantity.RankedBy (id : K → K) :=
  ⟨fun _ _ => decide_eq_true_iff⟩

theorem sumRates_exact (rates : List K) : sumRates rates = rates.sum :=
  List.sum_eq_foldl.symm

/-- By what members of a bucket are taken if sizes rise within it: hotter ones, then smaller ones. -/
def heat (rate : α → K) (m : α × Nat) : K ×ₗ ℤ :=
  toLex (rate m.1, -(m.2 : ℤ))

theorem sum_heat (rate : α → K) (ms : List (α × Nat)) :
    (ms.map (heat rate)).sum = toLex ((ms.map fun m => rate m.1).sum, -(sumBy (·.2) ms : ℤ)) := by
  induction ms with
  | nil => rfl
  | cons m rest ih =>
    rw [List.map_cons, List.sum_cons, ih, heat, ← toLex_add, Prod.mk_add_mk, List.map_cons,
      List.sum_cons, sumBy_cons, Nat.cast_add, neg_add]

theorem byRate_heat_falls (rate : α → K) {members : List (α × Nat)}
    (ascending : members.Pairwise fun m n => m.2 ≤ n.2) :
    (byRate rate members).Pairwise fun x y => heat rate y ≤ heat rate x := by
  refine (pairwise_sortBy_tied ?_ ?_ ascending).imp ?_
  · intro x y z first second
    exact Quantity.rankedBy_exact.trans second first
  · intro x y
    exact Quantity.rankedBy_exact.total _ _
  · rintro x y ⟨less, tied⟩
    rw [Quantity.rankedBy_exact.rankLe_iff] at less tied
    rw [heat, heat, Prod.Lex.toLex_le_toLex]
    rcases less.lt_or_eq with colder | same
    · exact .inl colder
    · refine .inr ⟨same, neg_le_neg (Nat.cast_le.2 (tied same.ge))⟩

namespace Bucket

variable [IsStrictOrderedRing K] {rate other : α → K} {b : Bucket α}

/-- What is taken of a bucket weighs the most of all that could be taken. -/
theorem sum_heat_le_trim (ascending : b.members.Pairwise fun m n => m.2 ≤ n.2) (limit : Nat)
    {taken : List (α × Nat)} (held : taken.Subperm b.members)
    (count : taken.length = min b.length limit) :
    (taken.map (heat rate)).sum ≤ ((b.trim rate limit).members.map (heat rate)).sum := by
  have same : (byRate rate b.members).Perm b.members := perm_sortBy _ _
  have most := sum_le_sum_take (byRate_heat_falls rate ascending) (held.trans same.symm.subperm)
  have prefixes : (byRate rate b.members).take taken.length =
      (byRate rate b.members).take limit := by
    rw [List.take_eq_take_iff, same.length_eq, count, length]
    omega
  rwa [prefixes, ← trim_members] at most

/-- Higher rates do not lower the priority of a bucket. -/
theorem priority_le_of_rate_le (ascending : b.members.Pairwise fun m n => m.2 ≤ n.2)
    (higher : ∀ m ∈ b.members, rate m.1 ≤ other m.1) (limit : Nat) :
    (b.trim rate limit).priority id ≤ (b.trim other limit).priority id := by
  have part := trim_members_subperm rate limit b
  have count : (b.trim rate limit).members.length = (b.trim other limit).members.length := by
    rw [length_trim_members, length_trim_members]
  have weights : ((b.trim rate limit).members.map (heat rate)).sum ≤
      ((b.trim other limit).members.map (heat other)).sum := by
    calc ((b.trim rate limit).members.map (heat rate)).sum
        ≤ ((b.trim rate limit).members.map (heat other)).sum := by
          refine List.sum_le_sum fun m member => ?_
          exact Prod.Lex.toLex_mono ⟨higher m (part.subset member), le_rfl⟩
      _ ≤ ((b.trim other limit).members.map (heat other)).sum :=
          sum_heat_le_trim ascending limit part length_trim_members
  rw [sum_heat, sum_heat, ← sumRates_exact, ← sumRates_exact, ← trim_hotness, ← trim_hotness,
    Prod.Lex.toLex_le_toLex] at weights
  rw [Trimmed.priority, Trimmed.priority, Prod.Lex.toLex_le_toLex]
  rcases weights with hotter | ⟨same, smaller⟩
  · exact .inl hotter
  · -- as hot and as many: the average does not grow
    refine .inr ⟨same, Prod.Lex.toLex_le_toLex.2 (.inr ⟨count, ?_⟩)⟩
    rw [OrderDual.toDual_le_toDual, Trimmed.average, Trimmed.average, count]
    refine Nat.div_le_div_right ?_
    simpa using smaller

end Bucket

namespace Options

variable {Q : Type} [Quantity Q] {o : Options Q} {tables : List Table}

theorem ascending_members (sorted : tables.Pairwise fun x y => x.sizeLe y = true)
    {b : Bucket Table} (member : b ∈ o.tableBuckets tables) :
    b.members.Pairwise fun m n => m.2 ≤ n.2 := by
  refine List.Pairwise.sublist (sublist_of_mem_buckets member) ?_
  rw [List.pairwise_map]
  refine sorted.imp fun {x y} before => ?_
  rcases Table.sizeLe_iff.1 before with less | ⟨same, _⟩
  · exact less.le
  · exact same.le

variable {t : Thresholds} {rate : Table → K}

/-- The selected tables tell their bucket. -/
theorem bucket_eq_of_subset (distinct : (tables.map (·.id)).Nodup) {b c : Bucket Table}
    (member : b ∈ o.tableBuckets tables) {chosen : Selection K} {before after : List (Bucket Table)}
    (picked : Selection.From id rate t (o.tableBuckets tables) chosen before c after)
    (source : chosen.tables ⊆ b.items) : b = c := by
  have some : 0 < chosen.tables.length := by
    have two := t.two_le_least
    have least := t.least_le_greatest
    have enough := picked.enough
    rw [picked.tables, Bucket.length_trim]
    omega
  obtain ⟨y, taken⟩ := List.exists_mem_of_length_pos some
  have held : y ∈ c.items := (Bucket.trim_subperm _ _ _).subset (picked.tables ▸ taken)
  by_contra other
  have elsewhere : b ∈ before ++ after := by
    rw [picked.buckets] at member
    simpa [other] using member
  exact only_bucket_of_split distinct picked.buckets held b elsewhere (source taken)

variable [IsStrictOrderedRing K] {x : Table} {more : K}

/-- The bucket stays the first of the greatest priority: the others are as they were. -/
theorem first_of_raised (sorted : tables.Pairwise fun x y => x.sizeLe y = true)
    (distinct : (tables.map (·.id)).Nodup) {b : Bucket Table} (member : b ∈ o.tableBuckets tables)
    (inside : x ∈ b.items) (raised : rate x ≤ more) {chosen : Selection K}
    (selected : Selection.first rate t (o.tableBuckets tables) = some chosen)
    (source : chosen.tables ⊆ b.items) :
    ∃ again, Selection.first (Function.update rate x more) t (o.tableBuckets tables) = some again ∧
      again.tables ⊆ b.items := by
  have ranks := Quantity.rankedBy_exact (K := K)
  obtain ⟨before, c, after, picked⟩ := (Selection.first_eq_some_iff ranks).1 selected
  obtain rfl := bucket_eq_of_subset distinct member picked source
  have same : ∀ c ∈ before ++ after,
      c.trim (Function.update rate x more) t.greatest = c.trim rate t.greatest := by
    intro c elsewhere
    refine Bucket.trim_congr fun m held => Function.update_of_ne ?_ _ _
    rintro rfl
    exact only_bucket_of_split distinct picked.buckets inside c elsewhere (List.mem_map_of_mem held)
  have higher : (b.trim rate t.greatest).priority id ≤
      (b.trim (Function.update rate x more) t.greatest).priority id := by
    refine Bucket.priority_le_of_rate_le (ascending_members sorted member) (fun m _ => ?_) _
    by_cases own : m.1 = x
    · rw [own, Function.update_self]
      exact raised
    · rw [Function.update_of_ne own]
  let again := b.trim (Function.update rate x more) t.greatest
  refine ⟨⟨again.items, again.hotness⟩,
    (Selection.first_eq_some_iff ranks).2 ⟨before, b, after, ?_⟩, (Bucket.trim_subperm _ _ _).subset⟩
  constructor
  case buckets => exact picked.buckets
  case enough => exact picked.enough
  case tables => rfl
  case hotness => rfl
  case ahead =>
    intro c earlier large
    rw [same c (List.mem_append_left _ earlier)]
    exact (picked.ahead c earlier large).trans_le higher
  case behind =>
    intro c later large
    rw [same c (List.mem_append_right _ later)]
    exact (picked.behind c later large).trans higher

/-- In exact arithmetic, more reads of a table do not cost its bucket the choice: whatever bucket is
selected from, it is selected from again once the rate of one of its tables, taken or not, has risen.
This is so whether sizes are grouped in exact arithmetic, too, or in binary64. -/
theorem raised_rate_keeps_choice (sorted : tables.Pairwise fun x y => x.sizeLe y = true)
    (distinct : (tables.map (·.id)).Nodup) (raised : rate x < more) :
    (∀ o : Options K, ∀ b ∈ o.tableBuckets tables, x ∈ b.items →
      ∀ chosen, o.select t rate tables = some chosen → chosen.tables ⊆ b.items →
        ∃ again, o.select t (Function.update rate x more) tables = some again ∧
          again.tables ⊆ b.items) ∧
    ∀ o : Options Float, ∀ b ∈ o.tableBuckets tables, x ∈ b.items →
      ∀ chosen, Selection.first rate t (o.tableBuckets tables) = some chosen →
        chosen.tables ⊆ b.items →
        ∃ again, Selection.first (Function.update rate x more) t (o.tableBuckets tables) = some again ∧
          again.tables ⊆ b.items := by
  constructor
  · intro o b member inside chosen selected source
    rw [select_eq_first] at selected ⊢
    exact first_of_raised sorted distinct member inside raised.le selected source
  · intro o b member inside chosen selected source
    exact first_of_raised sorted distinct member inside raised.le selected source

/-- The two buckets are equally hot. The last table of the one that is chosen is dropped at first and
taken in place of another once its rate has risen. -/
theorem dropped_table_is_raised :
    let o : Options ℚ := { low := 1 / 2, high := 3 / 2, minSize := 0 }
    let t : Thresholds := { least := 2, greatest := 2 }
    let x : Table := { id := 0, size := 12, place := 0 }
    let y : Table := { id := 1, size := 10, place := 1 }
    let z : Table := { id := 2, size := 10, place := 2 }
    let tables : List Table := [y, z, x, { id := 3, size := 40, place := 3 }, { id := 4, size := 50, place := 4 }]
    let rate (u : Table) : ℚ := [1, 2, 3, 1, 4].getD u.id 0
    (tables.Pairwise fun u v => u.sizeLe v = true) ∧ (tables.map (·.id)).Nodup ∧ rate x < 5 / 2 ∧
    ∃ b ∈ o.tableBuckets tables, b.items = [y, z, x] ∧
      (o.select t rate tables).map (·.tables) = some [z, y] ∧
      ∃ again, o.select t (Function.update rate x (5 / 2)) tables = some again ∧
        again.tables ⊆ b.items ∧ again.tables = [z, x] := by
  intro o t x y z tables rate
  have sorted : tables.Pairwise fun u v => u.sizeLe v = true := by decide
  have distinct : (tables.map (·.id)).Nodup := by decide
  have raised : rate x < 5 / 2 := by decide +kernel
  have member : Bucket.mk [(y, 10), (z, 10), (x, 12)] 32 ∈ o.tableBuckets tables := by decide +kernel
  have taken : (o.select t rate tables).map (·.tables) = some [z, y] := by decide +kernel
  have retaken : (o.select t (Function.update rate x (5 / 2)) tables).map (·.tables) = some [z, x] := by
    decide +kernel
  refine ⟨sorted, distinct, raised, _, member, rfl, taken, ?_⟩
  obtain ⟨chosen, selected, same⟩ := Option.map_eq_some_iff.1 taken
  have source : chosen.tables ⊆ [y, z, x] := by
    rw [same]
    decide
  obtain ⟨again, reselected, inside⟩ :=
    (raised_rate_keeps_choice sorted distinct raised).1 o _ member (by decide) chosen selected source
  rw [reselected] at retaken
  exact ⟨again, reselected, inside, Option.some.inj retaken⟩

end Options

end TieredCompaction
