import TieredCompaction.Table
/-!
The marks on a shelf, and its parts. A place is marked once the table there is retired, and marks
only come with `retire`. The tables of one owner are a part of the shelf, as if they stood on a
shelf of their own.
-/
namespace TieredCompaction.Shelf

variable {R : Type}

/-- Whether the table at a place is retired. -/
def marked (s : Shelf R) (place : Nat) : Bool :=
  (s.holdings[place]?).any (·.retired)

/-- A shelf with at least the places of another one and the same marks: meters may differ, and
tables may have been put behind. -/
structure Extends (s later : Shelf R) : Prop where
  size : s.holdings.size ≤ later.holdings.size
  marks : ∀ place < later.holdings.size, later.marked place = s.marked place

instance (s later : Shelf R) : Decidable (s.Extends later) :=
  decidable_of_iff _ ⟨fun ⟨size, marks⟩ => ⟨size, marks⟩, fun ⟨size, marks⟩ => And.intro size marks⟩

/-- A table has its place on the shelf and is not retired. -/
def Offers (s : Shelf R) (t : Table) : Prop :=
  t.place < s.holdings.size ∧ s.marked t.place = false

instance (s : Shelf R) (t : Table) : Decidable (s.Offers t) :=
  inferInstanceAs (Decidable (_ ∧ _))

variable {s later : Shelf R} {place : Nat}

theorem marked_of_le (behind : s.holdings.size ≤ place) : s.marked place = false := by
  rw [marked, Array.getElem?_eq_none behind]
  rfl

theorem Extends.marked (extended : s.Extends later) (place : Nat) :
    later.marked place = s.marked place := by
  rcases Nat.lt_or_ge place later.holdings.size with inside | behind
  · exact extended.marks place inside
  · rw [marked_of_le behind, marked_of_le (Nat.le_trans extended.size behind)]

theorem extends_push (h : Holding R) (unmarked : h.retired = false) :
    s.Extends { s with holdings := s.holdings.push h } where
  size := by simp
  marks place _ := by
    simp only [Shelf.marked, Array.getElem?_push]
    split
    · next last => simp [last, unmarked]
    · rfl

theorem isRetired_eq (s : Shelf R) (t : Table) : s.isRetired t = s.marked t.place := rfl

@[simp] theorem size_retire (s : Shelf R) (t : Table) :
    (s.retire t).holdings.size = s.holdings.size := by
  simp [retire]

theorem marked_retire (s : Shelf R) (t : Table) (place : Nat) :
    (s.retire t).marked place = true ↔
      s.marked place = true ∨ place < s.holdings.size ∧ t.place = place := by
  simp only [marked, retire, Array.getElem?_modify]
  rcases Nat.lt_or_ge place s.holdings.size with inside | behind
  · by_cases same : t.place = place <;> simp [same, inside]
  · simp [Nat.not_lt.2 behind]

@[simp] theorem size_retireAll (s : Shelf R) (tables : List Table) :
    (tables.foldl retire s).holdings.size = s.holdings.size := by
  induction tables generalizing s with
  | nil => rfl
  | cons t rest ih => rw [List.foldl_cons, ih, size_retire]

theorem marked_retireAll (s : Shelf R) (tables : List Table) (place : Nat) :
    (tables.foldl retire s).marked place = true ↔
      s.marked place = true ∨ place < s.holdings.size ∧ ∃ t ∈ tables, t.place = place := by
  induction tables generalizing s with
  | nil => simp
  | cons t rest ih =>
    rw [List.foldl_cons, ih, marked_retire, size_retire, or_assoc, ← and_or_left]
    simp only [List.mem_cons, exists_eq_or_imp]

/-- What stands at some places of a shelf stands on a shelf of its own, in this order. -/
structure Part (places : List Nat) (part whole : Shelf R) : Prop where
  distinct : places.Nodup
  size : part.holdings.size = places.length
  held : ∀ i place : Nat, places[i]? = some place → whole.holdings[place]? = part.holdings[i]?

/-- A shelf to which more may have been added, and which was changed at some places only. -/
structure Spares (own : List Nat) (s later : Shelf R) : Prop where
  size : s.holdings.size ≤ later.holdings.size
  same : ∀ place < s.holdings.size, place ∉ own → later.holdings[place]? = s.holdings[place]?

def update (s : Shelf R) (place : Nat) (change : Holding R → Holding R) : Shelf R :=
  { s with holdings := s.holdings.modify place change }

@[simp] theorem size_update (s : Shelf R) (place : Nat) (change : Holding R → Holding R) :
    (s.update place change).holdings.size = s.holdings.size :=
  Array.size_modify

variable {part whole : Shelf R} {places own : List Nat} {i : Nat}

namespace Part

theorem inside (parts : Part places part whole) (mine : place ∈ places) :
    place < whole.holdings.size := by
  obtain ⟨i, there⟩ := List.getElem?_of_mem mine
  have small : i < part.holdings.size := by
    rw [parts.size]
    exact (List.getElem?_eq_some_iff.1 there).1
  have held := parts.held i place there
  rw [Array.getElem?_eq_getElem small] at held
  exact (Array.getElem?_eq_some_iff.1 held).1

theorem congr (parts : Part places part whole)
    (same : ∀ place ∈ places, later.holdings[place]? = whole.holdings[place]?) :
    Part places part later where
  distinct := parts.distinct
  size := parts.size
  held i place there := (same place (List.mem_of_getElem? there)).trans (parts.held i place there)

theorem update (parts : Part places part whole) (there : places[i]? = some place)
    (change : Holding R → Holding R) :
    Part places (part.update i change) (whole.update place change) where
  distinct := parts.distinct
  size := by rw [size_update, parts.size]
  held j other found := by
    have held := parts.held j other found
    simp only [Shelf.update, Array.getElem?_modify, held]
    by_cases same : i = j
    · rw [same, found, Option.some.injEq] at there
      simp [same, there]
    · have apart : place ≠ other := fun equal => same (by
        rw [equal] at there
        exact (List.getElem?_inj (List.getElem?_eq_some_iff.1 there).1 parts.distinct).1
          (there.trans found.symm))
      simp [same, apart]

theorem push (parts : Part places part whole) (h : Holding R) :
    Part (places ++ [whole.holdings.size]) { part with holdings := part.holdings.push h }
      { whole with holdings := whole.holdings.push h } where
  distinct := by
    refine List.nodup_append.2 ⟨parts.distinct, by simp, fun place mine other new same => ?_⟩
    have small := parts.inside mine
    rw [same, List.mem_singleton.1 new] at small
    exact Nat.lt_irrefl _ small
  size := by simp [parts.size]
  held i place there := by
    simp only [Array.getElem?_push, parts.size]
    rcases Nat.lt_trichotomy i places.length with small | last | large
    · rw [List.getElem?_append_left small] at there
      have inside := parts.inside (List.mem_of_getElem? there)
      rw [if_neg (Nat.ne_of_lt inside), if_neg (Nat.ne_of_lt small)]
      exact parts.held i place there
    · rw [last, List.getElem?_concat_length, Option.some.injEq] at there
      simp [last, there]
    · have none : (places ++ [whole.holdings.size])[i]? = none := by
        apply List.getElem?_eq_none
        rw [List.length_append, List.length_singleton]
        exact large
      rw [none] at there
      contradiction

end Part

namespace Spares

theorem refl (own : List Nat) (s : Shelf R) : Spares own s s :=
  ⟨Nat.le_refl _, fun _ _ _ => rfl⟩

/-- A change at a place of its own, or at one that is new. -/
theorem update (spares : Spares own s later) (mine : place ∈ own ∨ s.holdings.size ≤ place)
    (change : Holding R → Holding R) : Spares own s (later.update place change) where
  size := by
    rw [size_update]
    exact spares.size
  same other old others := by
    have apart : place ≠ other := by
      rintro rfl
      rcases mine with mine | new
      · exact others mine
      · exact Nat.not_lt.2 new old
    simp only [Shelf.update, Array.getElem?_modify, if_neg apart]
    exact spares.same other old others

theorem push (spares : Spares own s later) (h : Holding R) :
    Spares own s { later with holdings := later.holdings.push h } where
  size := by
    rw [Array.size_push]
    exact Nat.le_succ_of_le spares.size
  same other old others := by
    rw [Array.getElem?_push, if_neg (Nat.ne_of_lt (Nat.lt_of_lt_of_le old spares.size))]
    exact spares.same other old others

end Spares

end TieredCompaction.Shelf
