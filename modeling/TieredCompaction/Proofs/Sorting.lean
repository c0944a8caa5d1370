import TieredCompaction.Sorting
import Mathlib.Data.List.Basic
/-!
More on stable sorting. The first item of the result is the first one of those that may precede all
(`exists_first_sortBy`, `head?_sortBy_of_first`); what holds between items in the order in which
they come still holds between those of one rank (`pairwise_sortBy_tied`); and sorting does not look
at the items themselves, but at how they compare (`sortBy_map`). What is sorted falls into what is
within a bound and what is beyond it (`filter_append_filter_not`).
-/
namespace TieredCompaction

variable {α β : Type}

section Renamed

variable {f : α → β} {q : α → α → Bool} {r : β → β → Bool}

theorem insertBy_map (same : ∀ a b, r (f a) (f b) = q a b) (x : α) (xs : List α) :
    insertBy r (f x) (xs.map f) = (insertBy q x xs).map f := by
  induction xs with
  | nil => rfl
  | cons y rest ih =>
    simp only [List.map_cons, insertBy, same]
    split
    · rfl
    · rw [List.map_cons, ih]

theorem sortBy_map (same : ∀ a b, r (f a) (f b) = q a b) (xs : List α) :
    sortBy r (xs.map f) = (sortBy q xs).map f := by
  induction xs with
  | nil => rfl
  | cons x rest ih => rw [List.map_cons, sortBy, sortBy, ih, insertBy_map same]

end Renamed

/-- In a sorted list, the items up to a bound stand in front of the others. -/
theorem filter_append_filter_not {p : α → Bool} {xs : List α}
    (sorted : xs.Pairwise fun x y => p y = true → p x = true) :
    xs.filter p ++ xs.filter (!p ·) = xs := by
  induction xs with
  | nil => rfl
  | cons x rest ih =>
    obtain ⟨first, others⟩ := List.pairwise_cons.1 sorted
    have ih := ih others
    by_cases within : p x = true
    · rw [List.filter_cons_of_pos within, List.filter_cons_of_neg (by simp [within]), List.cons_append, ih]
    · have none : rest.filter p = [] :=
        List.filter_eq_nil_iff.2 fun y member below => within (first y member below)
      rw [none, List.nil_append] at ih
      rw [List.filter_cons_of_neg within, none, List.nil_append, List.filter_cons_of_pos (by simp [within]), ih]

variable {le : α → α → Bool}

/-- What is sorted stays as it is. -/
theorem sortBy_eq_self {xs : List α} (sorted : xs.Pairwise (le · ·)) : sortBy le xs = xs := by
  induction xs with
  | nil => rfl
  | cons x rest ih =>
    obtain ⟨first, others⟩ := List.pairwise_cons.1 sorted
    rw [sortBy, ih others]
    cases rest with
    | nil => rfl
    | cons y rest => rw [insertBy, if_pos (first y List.mem_cons_self)]

theorem head?_insertBy (le : α → α → Bool) (x : α) (ys : List α) :
    (insertBy le x ys).head? = some (match ys.head? with
      | none => x
      | some y => if le x y then x else y) := by
  cases ys with
  | nil => rfl
  | cons y rest =>
    simp only [insertBy, List.head?_cons]
    split <;> rfl

/-- The first item of a sorted list: those that came before it may not precede it, and those that
came after it may follow it. -/
theorem head?_sortBy_of_first {before after : List α} {x : α} (behind : ∀ y ∈ before, ¬ le y x)
    (first : ∀ y ∈ after, le x y) : (sortBy le (before ++ x :: after)).head? = some x := by
  induction before with
  | nil =>
    rw [List.nil_append, sortBy, head?_insertBy]
    cases top : (sortBy le after).head? with
    | none => rfl
    | some y =>
      have member : y ∈ after := (perm_sortBy le after).mem_iff.1 (List.mem_of_head? top)
      simp [first y member]
  | cons y rest ih =>
    have top := ih fun z member => behind z (List.mem_cons_of_mem _ member)
    rw [List.cons_append, sortBy, head?_insertBy, top]
    simp [behind y List.mem_cons_self]

theorem exists_first_sortBy (trans : ∀ a b c, le a b → le b c → le a c)
    (total : ∀ a b, le a b ∨ le b a) {xs : List α} {x : α} (top : (sortBy le xs).head? = some x) :
    ∃ before after, xs = before ++ x :: after ∧ (∀ y ∈ before, ¬ le y x) ∧
      ∀ y ∈ after, le x y := by
  induction xs generalizing x with
  | nil => cases top
  | cons y rest ih =>
    rw [sortBy, head?_insertBy] at top
    cases later : (sortBy le rest).head? with
    | none =>
      have none : rest = [] := by
        have same := (perm_sortBy le rest).length_eq
        rw [List.head?_eq_none_iff.1 later] at same
        exact List.eq_nil_of_length_eq_zero same.symm
      rw [later] at top
      obtain rfl : y = x := Option.some.inj top
      exact ⟨[], rest, rfl, by simp, by simp [none]⟩
    | some z =>
      obtain ⟨before, after, rfl, behind, first⟩ := ih later
      rw [later] at top
      by_cases leads : le y z
      · obtain rfl : y = x := by simpa [leads] using top
        refine ⟨[], _, rfl, by simp, fun w member => ?_⟩
        rcases List.mem_append.1 member with earlier | next
        · exact trans _ _ _ leads ((total w z).resolve_left (behind w earlier))
        · rcases List.mem_cons.1 next with rfl | next
          · exact leads
          · exact trans _ _ _ leads (first w next)
      · obtain rfl : z = x := by simpa [leads] using top
        refine ⟨y :: before, after, rfl, ?_, first⟩
        rintro w (_ | ⟨_, member⟩)
        · exact leads
        · exact behind w member

private theorem pairwise_insertBy_tied {R : α → α → Prop} (trans : ∀ a b c, le a b → le b c → le a c)
    (total : ∀ a b, le a b ∨ le b a) {x : α} {ys : List α} (ahead : ∀ y ∈ ys, R x y)
    (sorted : ys.Pairwise fun a b => le a b ∧ (le b a → R a b)) :
    (insertBy le x ys).Pairwise fun a b => le a b ∧ (le b a → R a b) := by
  induction ys with
  | nil => simp [insertBy]
  | cons y rest ih =>
    obtain ⟨first, others⟩ := List.pairwise_cons.1 sorted
    rw [insertBy]
    split
    · next before =>
      refine .cons (fun z member => ⟨?_, fun _ => ahead z member⟩) sorted
      rcases List.mem_cons.1 member with rfl | later
      · exact before
      · exact trans _ _ _ before (first z later).1
    · next behind =>
      refine .cons (fun z member => ?_) (ih (fun z later => ahead z (List.mem_cons_of_mem _ later)) others)
      rcases List.mem_cons.1 ((perm_insertBy le x rest).mem_iff.1 member) with rfl | later
      · exact ⟨(total z y).resolve_left behind, fun back => absurd back behind⟩
      · exact first z later

/-- Items of one rank stand to each other as they did before. -/
theorem pairwise_sortBy_tied {R : α → α → Prop} (trans : ∀ a b c, le a b → le b c → le a c)
    (total : ∀ a b, le a b ∨ le b a) {xs : List α} (given : xs.Pairwise R) :
    (sortBy le xs).Pairwise fun a b => le a b ∧ (le b a → R a b) := by
  induction xs with
  | nil => exact .nil
  | cons x rest ih =>
    obtain ⟨ahead, others⟩ := List.pairwise_cons.1 given
    refine pairwise_insertBy_tied trans total (fun y member => ?_) (ih others)
    exact ahead y ((perm_sortBy le rest).mem_iff.1 member)

end TieredCompaction
