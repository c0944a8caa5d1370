/-!
Stable sorting: the result is a sorted rearrangement (`perm_sortBy`, `pairwise_sortBy`) in which
items of one rank keep their order (`filter_sortBy`). Sorting some of the items gives the order that
they have among all (`sortBy_filter`). Items of different ranks may come in any order
(`sortBy_eq_of_perm`).
-/
namespace TieredCompaction

variable {α : Type}

/-- Puts an item in front of the first one that may follow it. -/
def insertBy (le : α → α → Bool) (x : α) : List α → List α
  | [] => [x]
  | y :: rest => if le x y then x :: y :: rest else y :: insertBy le x rest

def sortBy (le : α → α → Bool) : List α → List α
  | [] => []
  | x :: rest => insertBy le x (sortBy le rest)

theorem perm_insertBy (le : α → α → Bool) (x : α) (xs : List α) :
    (insertBy le x xs).Perm (x :: xs) := by
  induction xs with
  | nil => exact .refl _
  | cons y rest ih =>
    rw [insertBy]
    split
    · exact .refl _
    · exact (ih.cons y).trans (.swap x y rest)

theorem perm_sortBy (le : α → α → Bool) (xs : List α) : (sortBy le xs).Perm xs := by
  induction xs with
  | nil => exact .refl _
  | cons x rest ih => exact (perm_insertBy le x _).trans (ih.cons x)

variable {le : α → α → Bool}

private theorem pairwise_insertBy (trans : ∀ a b c, le a b → le b c → le a c)
    (total : ∀ a b, le a b ∨ le b a) (x : α) {xs : List α} (sorted : xs.Pairwise (le · ·)) :
    (insertBy le x xs).Pairwise (le · ·) := by
  induction xs with
  | nil => simp [insertBy]
  | cons y rest ih =>
    obtain ⟨first, others⟩ := List.pairwise_cons.1 sorted
    rw [insertBy]
    split
    · next before =>
      refine .cons (fun z member => ?_) sorted
      rcases List.mem_cons.1 member with rfl | member
      · exact before
      · exact trans _ _ _ before (first z member)
    · next behind =>
      refine .cons (fun z member => ?_) (ih others)
      rcases List.mem_cons.1 ((perm_insertBy le x rest).mem_iff.1 member) with rfl | member
      · exact (total z y).resolve_left behind
      · exact first z member

theorem pairwise_sortBy (trans : ∀ a b c, le a b → le b c → le a c)
    (total : ∀ a b, le a b ∨ le b a) (xs : List α) : (sortBy le xs).Pairwise (le · ·) := by
  induction xs with
  | nil => exact .nil
  | cons x rest ih => exact pairwise_insertBy trans total x ih

private theorem insertBy_of_first {x : α} {xs : List α} (first : ∀ y ∈ xs, le x y) :
    insertBy le x xs = x :: xs := by
  cases xs with
  | nil => rfl
  | cons y rest => rw [insertBy, if_pos (first y List.mem_cons_self)]

private theorem filter_insertBy_of_sorted (trans : ∀ a b c, le a b → le b c → le a c) (p : α → Bool) (x : α)
    {xs : List α} (sorted : xs.Pairwise (le · ·)) :
    (insertBy le x xs).filter p = if p x then insertBy le x (xs.filter p) else xs.filter p := by
  induction xs with
  | nil => by_cases chosen : p x <;> simp [insertBy, chosen]
  | cons y rest ih =>
    obtain ⟨first, others⟩ := List.pairwise_cons.1 sorted
    have ih := ih others
    rw [insertBy]
    split
    · next before =>
      have all : ∀ z ∈ (y :: rest).filter p, le x z := by
        intro z member
        rcases List.mem_cons.1 (List.mem_filter.1 member).1 with rfl | later
        · exact before
        · exact trans _ _ _ before (first z later)
      rw [insertBy_of_first all, List.filter_cons]
    · next behind =>
      by_cases kept : p y
      · rw [List.filter_cons_of_pos kept, List.filter_cons_of_pos kept, ih, insertBy, if_neg behind]
        split <;> rfl
      · rw [List.filter_cons_of_neg kept, List.filter_cons_of_neg kept, ih]

theorem sortBy_filter (trans : ∀ a b c, le a b → le b c → le a c) (total : ∀ a b, le a b ∨ le b a)
    (p : α → Bool) (xs : List α) : sortBy le (xs.filter p) = (sortBy le xs).filter p := by
  induction xs with
  | nil => rfl
  | cons x rest ih =>
    rw [sortBy, filter_insertBy_of_sorted trans p x (pairwise_sortBy trans total rest), List.filter_cons]
    split
    · rw [sortBy, ih]
    · exact ih

private theorem filter_insertBy {p : α → Bool} (alike : ∀ a b, p a → p b → le a b) (x : α)
    (xs : List α) : (insertBy le x xs).filter p = (x :: xs).filter p := by
  induction xs with
  | nil => rfl
  | cons y rest ih =>
    rw [insertBy]
    split
    · rfl
    · next behind =>
      by_cases chosen : p x
      · have other : ¬ p y := fun h => behind (alike x y chosen h)
        simp [ih, chosen, other]
      · simp [List.filter_cons, ih, chosen]

/-- Items that may stand in any order among each other keep the order they have. -/
theorem filter_sortBy {p : α → Bool} (alike : ∀ a b, p a → p b → le a b) (xs : List α) :
    (sortBy le xs).filter p = xs.filter p := by
  induction xs with
  | nil => rfl
  | cons x rest ih => rw [sortBy, filter_insertBy alike, List.filter_cons, List.filter_cons, ih]

/-- Where no two items have one rank, the order in which they come does not matter. -/
theorem sortBy_eq_of_perm (trans : ∀ a b c, le a b → le b c → le a c)
    (total : ∀ a b, le a b ∨ le b a) {xs ys : List α}
    (strict : ∀ a ∈ xs, ∀ b ∈ xs, le a b → le b a → a = b) (same : xs.Perm ys) :
    sortBy le xs = sortBy le ys := by
  have sorted : (sortBy le xs).Perm (sortBy le ys) :=
    (perm_sortBy le xs).trans (same.trans (perm_sortBy le ys).symm)
  refine sorted.eq_of_pairwise (fun a b left right => ?_) (pairwise_sortBy trans total xs)
    (pairwise_sortBy trans total ys)
  exact strict a ((perm_sortBy le xs).mem_iff.1 left) b
    (same.mem_iff.2 ((perm_sortBy le ys).mem_iff.1 right))

end TieredCompaction
