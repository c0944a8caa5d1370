import TieredCompaction.Proofs.Selection
import TieredCompaction.Proofs.Sorting
import Mathlib.Data.Prod.Lex
/-!
Which bucket is selected, and what of it. A selection takes the hottest members of one bucket, those
of one rate in their order; the bucket is the first of those with the greatest priority, which is
hotness, then the number of members taken, then a small average.
-/
namespace TieredCompaction

variable {α : Type} {R N : Type} [Quantity R] [LinearOrder N] {rank : R → N}

/-- Numbers are sorted by their ranks in a linear order. -/
structure Quantity.RankedBy (rank : R → N) : Prop where
  rankLe_iff : ∀ x y : R, Quantity.rankLe x y = true ↔ rank x ≤ rank y

theorem Quantity.RankedBy.trans (ranked : RankedBy rank) {x y z : R} (first : rankLe x y = true)
    (second : rankLe y z = true) : rankLe x z = true := by
  rw [ranked.rankLe_iff] at first second ⊢
  exact first.trans second

theorem Quantity.RankedBy.total (ranked : RankedBy rank) (x y : R) :
    rankLe x y = true ∨ rankLe y x = true := by
  rw [ranked.rankLe_iff, ranked.rankLe_iff]
  exact le_total _ _

theorem Quantity.rankedBy_binary64 : Quantity.RankedBy Binary64.rank :=
  ⟨fun _ _ => decide_eq_true_iff⟩

/-- The members of a bucket by falling rate. Those of one rate keep their order. -/
structure HottestFirst (rank : R → N) (rate : α → R) (members sorted : List (α × Nat)) : Prop where
  perm : sorted.Perm members
  falling : sorted.Pairwise fun x y => rank (rate y.1) ≤ rank (rate x.1)
  stable : ∀ n, sorted.filter (fun x => rank (rate x.1) = n) =
    members.filter fun x => rank (rate x.1) = n

/-- What a job takes of a bucket: as many members as it may hold, hottest first, of which none is
less hot than one that is dropped. Their rates are added up from left to right. -/
structure Bucket.KeepsHottest (rank : R → N) (rate : α → R) (limit : Nat) (b : Bucket α)
    (t : Trimmed α R) : Prop where
  hottest : ∃ dropped, HottestFirst rank rate b.members (t.members ++ dropped)
  count : t.members.length = min b.length limit
  hotness : t.hotness = (t.members.map fun x => rate x.1).foldl (· + ·) Quantity.emptySum

/-- What is compared in the order of choice. -/
def Trimmed.priority (rank : R → N) (t : Trimmed α R) : N ×ₗ Nat ×ₗ Natᵒᵈ :=
  toLex (rank t.hotness, toLex (t.members.length, OrderDual.toDual t.average))

section Trimming

def byRate (rate : α → R) (members : List (α × Nat)) : List (α × Nat) :=
  sortBy (fun x y => Quantity.rankLe (rate y.1) (rate x.1)) members

theorem hottestFirst_eq (rate : α → R) (members : List (α × Nat)) :
    hottestFirst rate members = (byRate rate members).map fun x => (x, rate x.1) :=
  sortBy_map (fun _ _ => rfl) members

variable {rate : α → R} {limit : Nat} {b : Bucket α}

theorem Bucket.trim_members : (b.trim rate limit).members = (byRate rate b.members).take limit := by
  simp [trim, hottestFirst_eq, ← List.map_take, Function.comp_def]

theorem Bucket.trim_hotness :
    (b.trim rate limit).hotness = sumRates ((b.trim rate limit).members.map fun x => rate x.1) := by
  simp [trim, hottestFirst_eq, ← List.map_take, Function.comp_def]

theorem Bucket.length_trim_members : (b.trim rate limit).members.length = min b.length limit := by
  have items := Bucket.length_trim rate limit b
  rwa [Trimmed.items, List.length_map, Nat.min_comm] at items

theorem Bucket.trim_members_subperm (rate : α → R) (limit : Nat) (b : Bucket α) :
    (b.trim rate limit).members.Subperm b.members := by
  rw [trim_members]
  exact (List.take_sublist _ _).subperm.trans (perm_sortBy _ b.members).subperm

theorem hottestFirst_byRate (ranked : Quantity.RankedBy rank) (rate : α → R)
    (members : List (α × Nat)) : HottestFirst rank rate members (byRate rate members) where
  perm := perm_sortBy _ members
  falling := by
    refine (pairwise_sortBy ?_ ?_ members).imp fun before => (ranked.rankLe_iff _ _).1 before
    · intro x y z first second
      exact ranked.trans second first
    · intro x y
      exact ranked.total _ _
  stable n := by
    refine filter_sortBy (fun x y left right => ?_) members
    rw [ranked.rankLe_iff, of_decide_eq_true left, of_decide_eq_true right]

theorem Bucket.keepsHottest_trim (ranked : Quantity.RankedBy rank) (rate : α → R) (limit : Nat)
    (b : Bucket α) : b.KeepsHottest rank rate limit (b.trim rate limit) where
  hottest := by
    refine ⟨(byRate rate b.members).drop limit, ?_⟩
    rw [trim_members, List.take_append_drop]
    exact hottestFirst_byRate ranked rate b.members
  count := length_trim_members
  hotness := trim_hotness

end Trimming

theorem Trimmed.before_iff (ranked : Quantity.RankedBy rank) (x y : Trimmed α R) :
    x.before y = true ↔ y.priority rank ≤ x.priority rank := by
  have hotter : (!Quantity.rankLe x.hotness y.hotness) = true ↔ rank y.hotness < rank x.hotness := by
    rw [Bool.not_eq_true', Bool.eq_false_iff, Ne, ranked.rankLe_iff, not_le]
  have colder : (!Quantity.rankLe y.hotness x.hotness) = true ↔ rank x.hotness < rank y.hotness := by
    rw [Bool.not_eq_true', Bool.eq_false_iff, Ne, ranked.rankLe_iff, not_le]
  rw [before, priority, priority, Prod.Lex.toLex_le_toLex, Prod.Lex.toLex_le_toLex]
  simp only [hotter, colder, OrderDual.toDual_le_toDual]
  rcases lt_trichotomy (rank y.hotness) (rank x.hotness) with more | same | less
  · simp [more]
  · simp only [same, lt_irrefl, if_false, false_or, true_and]
    split
    · next differ => simp [differ.symm]
    · next equal => simp [not_not.1 equal]
  · simp [less, less.not_gt, less.ne']

theorem Trimmed.before_trans (ranked : Quantity.RankedBy rank) {x y z : Trimmed α R}
    (first : x.before y = true) (second : y.before z = true) : x.before z = true := by
  rw [before_iff ranked] at first second ⊢
  exact second.trans first

theorem Trimmed.before_total (ranked : Quantity.RankedBy rank) (x y : Trimmed α R) :
    x.before y = true ∨ y.before x = true := by
  rw [before_iff ranked, before_iff ranked]
  exact le_total _ _

/-- What is true of all buckets that are ranked. -/
theorem forall_mem_trimmed {rate : α → R} {least greatest : Nat} {bs : List (Bucket α)}
    {P : Trimmed α R → Prop} :
    (∀ x ∈ (bs.filter (least ≤ ·.length)).map (·.trim rate greatest), P x) ↔
      ∀ c ∈ bs, least ≤ c.length → P (c.trim rate greatest) := by
  simp only [List.forall_mem_map, List.mem_filter, and_imp, decide_eq_true_eq]

/-- What is selected from buckets. -/
def Selection.first (rate : Table → R) (t : Thresholds) (bs : List (Bucket Table)) :
    Option (Selection R) :=
  (ranked rate t.least t.greatest bs).head?.map fun top =>
    { tables := top.items, hotness := top.hotness }

theorem Options.select_eq_first (o : Options R) (t : Thresholds) (rate : Table → R)
    (tables : List Table) : o.select t rate tables = Selection.first rate t (o.tableBuckets tables) :=
  rfl

/-- A selection takes what a job may hold of the first bucket of the greatest priority among those
with enough members. -/
structure Selection.From (rank : R → N) (rate : Table → R) (t : Thresholds)
    (bs : List (Bucket Table)) (chosen : Selection R) (before : List (Bucket Table))
    (b : Bucket Table) (after : List (Bucket Table)) : Prop where
  buckets : bs = before ++ b :: after
  enough : t.least ≤ b.length
  tables : chosen.tables = (b.trim rate t.greatest).items
  hotness : chosen.hotness = (b.trim rate t.greatest).hotness
  ahead : ∀ c ∈ before, t.least ≤ c.length →
    (c.trim rate t.greatest).priority rank < (b.trim rate t.greatest).priority rank
  behind : ∀ c ∈ after, t.least ≤ c.length →
    (c.trim rate t.greatest).priority rank ≤ (b.trim rate t.greatest).priority rank

theorem Selection.first_eq_some_iff (ranks : Quantity.RankedBy rank) {rate : Table → R}
    {t : Thresholds} {bs : List (Bucket Table)} {chosen : Selection R} :
    first rate t bs = some chosen ↔
      ∃ before b after, Selection.From rank rate t bs chosen before b after := by
  constructor
  · intro selected
    obtain ⟨top, found, rfl⟩ := Option.map_eq_some_iff.1 selected
    obtain ⟨front, back, trimmed, ahead, behind⟩ :=
      exists_first_sortBy (fun x y z => Trimmed.before_trans (x := x) (y := y) (z := z) ranks)
        (Trimmed.before_total ranks) found
    -- the buckets that are trimmed are some of all
    obtain ⟨front, others, large, rfl, last⟩ := List.map_eq_append_iff.1 trimmed
    obtain ⟨b, back, rfl, rfl, rfl⟩ := List.map_eq_cons_iff.1 last
    obtain ⟨before, others, rfl, rfl, next⟩ := List.filter_eq_append_iff.1 large
    obtain ⟨skipped, after, rfl, few, enough, rfl⟩ := List.filter_eq_cons_iff.1 next
    rw [forall_mem_trimmed] at ahead behind
    refine ⟨before ++ skipped, b, after, ⟨by simp, by simpa using enough, rfl, rfl, ?_, ?_⟩⟩
    · intro c member large
      rcases List.mem_append.1 member with earlier | small
      · rw [← not_le, ← Trimmed.before_iff ranks]
        exact ahead c earlier large
      · exact absurd (by simpa using large) (few c small)
    · intro c member large
      exact (Trimmed.before_iff ranks _ _).1 (behind c member large)
  · rintro ⟨before, b, after, source⟩
    have found : (ranked rate t.least t.greatest bs).head? = some (b.trim rate t.greatest) := by
      rw [ranked, source.buckets, List.filter_append, List.filter_cons,
        if_pos (decide_eq_true source.enough), List.map_append, List.map_cons]
      apply head?_sortBy_of_first <;> rw [forall_mem_trimmed]
      · intro c earlier large
        rw [Trimmed.before_iff ranks, not_le]
        exact source.ahead c earlier large
      · intro c later large
        rw [Trimmed.before_iff ranks]
        exact source.behind c later large
    rw [first, found, Option.map_some, ← source.tables, ← source.hotness]

/-- Items that a list has, each at most as often, stand at as many places of it. -/
theorem exists_places_of_subperm {xs ys : List α} (fewer : xs.Subperm ys) :
    ∃ places : List (Fin ys.length), places.Nodup ∧ xs = places.map ys.get := by
  obtain ⟨zs, perm, sublist⟩ := fewer
  obtain ⟨places, rfl, ascending⟩ := List.sublist_eq_map_getElem sublist
  have distinct : places.Nodup := ascending.imp Fin.ne_of_lt
  have link : List.Forall₂ (fun x i => x = ys.get i) (places.map fun i => ys[i]) places := by
    rw [List.forall₂_map_left_iff, List.forall₂_same]
    exact fun _ _ => rfl
  obtain ⟨moved, same, rearranged⟩ := List.perm_comp_forall₂ perm.symm link
  rw [← List.forall₂_map_right_iff, List.forall₂_eq_eq_eq] at same
  exact ⟨moved, rearranged.nodup_iff.2 distinct, same⟩

namespace Options

/-- There is no selection iff no merge is due, which is so iff no bucket has enough tables.
Otherwise one bucket is selected from: among those with enough tables, the first one of the greatest
priority. As many of its tables are taken as a job may hold, the hottest ones, and no place of the
list twice. -/
theorem select_takes_first_of_best (o : Options Float) (t : Thresholds) (rate : Table → Float)
    (tables : List Table) :
    (o.select t rate tables = none ↔ o.estimate t tables = 0) ∧
    (o.estimate t tables = 0 ↔ ∀ b ∈ o.tableBuckets tables, b.length < t.least) ∧
    (∀ b ∈ o.tableBuckets tables,
      b.KeepsHottest Binary64.rank rate t.greatest (b.trim rate t.greatest)) ∧
    match o.select t rate tables with
    | none => True
    | some chosen =>
      (∃ before b after, Selection.From Binary64.rank rate t (o.tableBuckets tables) chosen before b after) ∧
      t.least ≤ chosen.tables.length ∧ chosen.tables.length ≤ t.greatest ∧
      ∃ places : List (Fin tables.length), places.Nodup ∧ chosen.tables = places.map tables.get := by
  refine ⟨select_eq_none_iff_estimate, estimate_eq_zero_iff, ?_, ?_⟩
  · intro b _
    exact b.keepsHottest_trim Quantity.rankedBy_binary64 rate t.greatest
  · cases selected : o.select t rate tables with
    | none => trivial
    | some chosen =>
      obtain ⟨before, b, after, source⟩ :=
        (Selection.first_eq_some_iff Quantity.rankedBy_binary64).1 selected
      refine ⟨⟨before, b, after, source⟩, least_le_length_select selected, ?_, ?_⟩
      · rw [source.tables, Bucket.length_trim]
        exact min_le_left _ _
      · exact exists_places_of_subperm (select_subperm selected)

/-- Two buckets are of one hotness, once the table that is least hot is left out of the first one. As
many tables are left in it as in the other, and it has the smaller ones. -/
example :
    let table (id size : Nat) : Table := { id, size, place := 0 }
    let tables := [table 1 10, table 2 10, table 3 10, table 4 10, table 5 (10 ^ 9), table 6 (10 ^ 9),
      table 7 (10 ^ 9)]
    let rate (t : Table) : Float := [0, 1, 3, 2, 3, 4, 4, 0].getD t.id 0
    let chosen? := standard.select ⟨2, 3, by decide, by decide⟩ rate tables
    chosen?.map (fun s => (s.tables.map (·.id), s.hotness)) = some ([2, 4, 3], 8) := by
  decide +kernel

end Options

end TieredCompaction
