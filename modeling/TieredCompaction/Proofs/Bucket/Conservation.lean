import TieredCompaction.Selection
import Mathlib.Data.List.Induction
import Mathlib.Data.List.Nodup
import Mathlib.Data.List.Perm.Subperm
/-!
Bucketing and trimming lose and invent nothing: the buckets hold the items that are not empty, each
once and in their order, and a trimmed bucket holds members of its bucket.
-/
namespace TieredCompaction

variable {α : Type}

@[simp] theorem sumBy_nil (f : α → Nat) : sumBy f [] = 0 := rfl

@[simp] theorem sumBy_cons (f : α → Nat) (x : α) (xs : List α) :
    sumBy f (x :: xs) = f x + sumBy f xs := rfl

theorem sumBy_append (f : α → Nat) (xs ys : List α) :
    sumBy f (xs ++ ys) = sumBy f xs + sumBy f ys := by
  induction xs with
  | nil => simp
  | cons x rest ih => simp only [List.cons_append, sumBy_cons, ih, Nat.add_assoc]

theorem sumBy_perm (f : α → Nat) {xs ys : List α} (same : xs.Perm ys) :
    sumBy f xs = sumBy f ys := by
  induction same with
  | nil => rfl
  | cons x _ ih => rw [sumBy_cons, sumBy_cons, ih]
  | swap x y rest => simp only [sumBy_cons, Nat.add_left_comm]
  | trans _ _ first second => exact first.trans second

theorem sumBy_sublist (f : α → Nat) {xs ys : List α} (fewer : xs.Sublist ys) :
    sumBy f xs ≤ sumBy f ys := by
  induction fewer with
  | slnil => exact Nat.le_refl _
  | cons x _ ih => exact Nat.le_trans ih (Nat.le_add_left _ _)
  | cons_cons x _ ih => exact Nat.add_le_add_left ih _

theorem length_flatMap {β : Type} (f : α → List β) (xs : List α) :
    (xs.flatMap f).length = sumBy (fun x => (f x).length) xs := by
  induction xs with
  | nil => rfl
  | cons x rest ih => rw [List.flatMap_cons, List.length_append, sumBy_cons, ih]

/-- Where all lists together have no item twice, an item of one list is in no other. -/
theorem only_of_nodup_flatMap {β γ : Type} [DecidableEq γ] {f : β → List γ} {b : β}
    {before after : List β} (distinct : ((before ++ b :: after).flatMap f).Nodup) {x : γ}
    (member : x ∈ f b) : (f b).count x = 1 ∧ ∀ c ∈ before ++ after, x ∉ f c := by
  obtain ⟨each, apart⟩ := List.nodup_flatMap.1 distinct
  rw [List.pairwise_append, List.pairwise_cons] at apart
  obtain ⟨_, ⟨behind, _⟩, front⟩ := apart
  refine ⟨List.count_eq_one_of_mem (each b (by simp)) member, fun c held inside => ?_⟩
  rcases List.mem_append.1 held with early | late
  · exact front c early b List.mem_cons_self inside member
  · exact behind c late member inside

theorem sumBy_eq_zero_iff {f : α → Nat} {xs : List α} : sumBy f xs = 0 ↔ ∀ x ∈ xs, f x = 0 := by
  induction xs with
  | nil => simp
  | cons x rest ih => simp [ih]

variable {R : Type} [Quantity R]

namespace Options

def membersOf (bs : List (Bucket α)) : List (α × Nat) :=
  bs.flatMap (·.members)

theorem membersOf_append (bs cs : List (Bucket α)) :
    membersOf (bs ++ cs) = membersOf bs ++ membersOf cs :=
  List.flatMap_append

theorem membersOf_cons (b : Bucket α) (bs : List (Bucket α)) :
    membersOf (b :: bs) = b.members ++ membersOf bs :=
  List.flatMap_cons

theorem perm_place (o : Options R) (bs : List (Bucket α)) (m : α × Nat) :
    (membersOf (o.place bs m)).Perm (m :: membersOf bs) := by
  induction bs with
  | nil => exact .refl _
  | cons b rest ih =>
    rw [place]
    split
    · simp only [membersOf_cons, Bucket.push, List.append_assoc]
      exact List.perm_middle
    · simp only [membersOf_cons]
      exact (ih.append_left b.members).trans List.perm_middle

/-- Every item that is not empty is in one bucket, as often as it was given. -/
theorem perm_membersOf_buckets (o : Options R) (items : List (α × Nat)) :
    (membersOf (o.buckets items)).Perm (items.filter (·.2 ≠ 0)) := by
  have placed : ∀ (xs : List (α × Nat)) (bs : List (Bucket α)),
      (membersOf (xs.foldl o.place bs)).Perm (membersOf bs ++ xs) := by
    intro xs
    induction xs with
    | nil => simp
    | cons x rest ih =>
      intro bs
      have first := (o.perm_place bs x).append_right rest
      exact (ih _).trans (first.trans List.perm_middle.symm)
  exact placed _ []

theorem buckets_concat (o : Options R) (items : List (α × Nat)) (m : α × Nat) :
    o.buckets (items ++ [m]) =
      if m.2 = 0 then o.buckets items else o.place (o.buckets items) m := by
  by_cases empty : m.2 = 0
  · simp [buckets, empty]
  · simp [buckets, empty, List.foldl_append]

theorem of_mem_place {o : Options R} {bs : List (Bucket α)} {m : α × Nat} {b : Bucket α}
    (member : b ∈ o.place bs m) : b ∈ bs ∨ (∃ c ∈ bs, b = c.push m) ∨ b = .single m := by
  induction bs with
  | nil => exact .inr (.inr (List.mem_singleton.1 member))
  | cons c rest ih =>
    rw [place] at member
    split at member
    · rcases List.mem_cons.1 member with rfl | other
      · exact .inr (.inl ⟨c, List.mem_cons_self, rfl⟩)
      · exact .inl (List.mem_cons_of_mem _ other)
    · rcases List.mem_cons.1 member with rfl | other
      · exact .inl List.mem_cons_self
      · rcases ih other with old | ⟨d, old, rfl⟩ | rfl
        · exact .inl (List.mem_cons_of_mem _ old)
        · exact .inr (.inl ⟨d, List.mem_cons_of_mem _ old, rfl⟩)
        · exact .inr (.inr rfl)

/-- A bucket keeps its place among the others and its members, and may take the item in. -/
theorem getElem?_place (o : Options R) {bs : List (Bucket α)} {i : Nat} {b : Bucket α}
    (found : bs[i]? = some b) (m : α × Nat) :
    ∃ c more, (o.place bs m)[i]? = some c ∧ c.members = b.members ++ more ∧ more.Sublist [m] := by
  induction bs generalizing i with
  | nil => cases found
  | cons d rest ih =>
    rw [place]
    cases i with
    | zero =>
      obtain rfl : d = b := Option.some.inj found
      split
      · exact ⟨d.push m, [m], rfl, rfl, .refl _⟩
      · exact ⟨d, [], rfl, (List.append_nil _).symm, List.nil_sublist _⟩
    | succ i =>
      split
      · exact ⟨b, [], found, (List.append_nil _).symm, List.nil_sublist _⟩
      · exact ih found

/-- A bucket keeps its place and its members, behind which some of the later items come. -/
theorem getElem?_foldl_place (o : Options R) {bs : List (Bucket α)} {i : Nat} {b : Bucket α}
    (found : bs[i]? = some b) (ms : List (α × Nat)) :
    ∃ c more, (ms.foldl o.place bs)[i]? = some c ∧ c.members = b.members ++ more ∧
      more.Sublist ms := by
  induction ms generalizing bs b with
  | nil => exact ⟨b, [], found, (List.append_nil _).symm, .slnil⟩
  | cons m rest ih =>
    obtain ⟨c, first, kept, grown, one⟩ := o.getElem?_place found m
    obtain ⟨d, others, held, more, later⟩ := ih kept
    refine ⟨d, first ++ others, held, ?_, one.append later⟩
    rw [more, grown, List.append_assoc]

theorem buckets_append (o : Options R) (items others : List (α × Nat)) :
    o.buckets (items ++ others) = (others.filter (·.2 ≠ 0)).foldl o.place (o.buckets items) := by
  rw [buckets, buckets, List.filter_append, List.foldl_append]

/-- Items of one bucket come in the order in which they were given. -/
theorem sublist_of_mem_buckets {o : Options R} {items : List (α × Nat)} {b : Bucket α}
    (member : b ∈ o.buckets items) : b.members.Sublist items := by
  induction items using List.reverseRecOn generalizing b with
  | nil => cases member
  | append_singleton items m ih =>
    rw [buckets_concat] at member
    split at member
    · exact (ih member).trans (List.sublist_append_left items [m])
    · rcases of_mem_place member with old | ⟨c, old, rfl⟩ | rfl
      · exact (ih old).trans (List.sublist_append_left items [m])
      · exact (ih old).append (List.Sublist.refl [m])
      · exact List.sublist_append_right items [m]

theorem perm_items_tableBuckets (o : Options R) (tables : List Table) :
    ((o.tableBuckets tables).flatMap (·.items)).Perm (tables.filter (·.size ≠ 0)) := by
  have members := (o.perm_membersOf_buckets (tables.map fun t => (t, t.size))).map (·.1)
  rw [membersOf, List.map_flatMap] at members
  refine members.trans (.of_eq ?_)
  simp [List.filter_map, Function.comp_def]

/-- Tables with IDs of their own are in one bucket each. -/
theorem only_bucket_of_split {o : Options R} {tables : List Table}
    (distinct : (tables.map (·.id)).Nodup) {before after : List (Bucket Table)} {b : Bucket Table}
    (split : o.tableBuckets tables = before ++ b :: after) {x : Table} (inside : x ∈ b.items) :
    ∀ c ∈ before ++ after, x ∉ c.items := by
  have each : ((o.tableBuckets tables).flatMap (·.items)).Nodup := by
    rw [(o.perm_items_tableBuckets tables).nodup_iff]
    exact (List.Nodup.of_map _ distinct).filter _
  rw [split] at each
  exact (only_of_nodup_flatMap each inside).2

theorem items_subperm {o : Options R} {tables : List Table} {b : Bucket Table}
    (member : b ∈ o.tableBuckets tables) : b.items.Subperm tables := by
  have part : b.items.Sublist ((o.tableBuckets tables).flatMap (·.items)) :=
    List.flatMap_def .. ▸ List.sublist_flatten_of_mem (List.mem_map_of_mem member)
  exact part.subperm.trans
    ((o.perm_items_tableBuckets tables).subperm.trans List.filter_sublist.subperm)

end Options

namespace Bucket

theorem perm_hottestFirst (rate : α → R) (members : List (α × Nat)) :
    ((hottestFirst rate members).map (·.1)).Perm members := by
  refine ((perm_sortBy _ (members.map fun member => (member, rate member.1))).map (·.1)).trans ?_
  simp [Function.comp_def]

theorem length_hottestFirst (rate : α → R) (members : List (α × Nat)) :
    (hottestFirst rate members).length = members.length := by
  simpa using (perm_hottestFirst rate members).length_eq

theorem length_trim (rate : α → R) (limit : Nat) (b : Bucket α) :
    (b.trim rate limit).items.length = min limit b.length := by
  simp [trim, Trimmed.items, length_hottestFirst, length]

theorem trim_congr {rate other : α → R} {limit : Nat} {b : Bucket α}
    (same : ∀ member ∈ b.members, rate member.1 = other member.1) :
    b.trim rate limit = b.trim other limit := by
  have rates : (b.members.map fun member => (member, rate member.1)) =
      b.members.map fun member => (member, other member.1) :=
    List.map_congr_left fun member held => by rw [same member held]
  rw [trim, trim, hottestFirst, hottestFirst, rates]

theorem trim_subperm (rate : α → R) (limit : Nat) (b : Bucket α) :
    (b.trim rate limit).items.Subperm b.items := by
  have kept : ((hottestFirst rate b.members).take limit).Sublist (hottestFirst rate b.members) :=
    List.take_sublist _ _
  have fewer := (kept.map (·.1)).subperm.trans (perm_hottestFirst rate b.members).subperm
  obtain ⟨part, same, sub⟩ := fewer
  exact ⟨part.map (·.1), same.map _, sub.map _⟩

theorem trim_perm (rate : α → R) {limit : Nat} {b : Bucket α} (fits : b.length ≤ limit) :
    (b.trim rate limit).items.Perm b.items := by
  refine (trim_subperm rate limit b).perm_of_length_le ?_
  rw [length_trim, Nat.min_eq_right fits]
  simp [items, length]

end Bucket

end TieredCompaction
