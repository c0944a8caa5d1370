import TieredCompaction.Proofs.Site.Acts
import TieredCompaction.Proofs.Shelf
/-!
What operations do to the shelf, the IDs and the clock, which a compactor shares with others. Only
merges touch them: they retire tables, and a queue that merges at once draws an ID and makes a
table.
-/
namespace TieredCompaction.Site

variable {R : Type}

/-- The step from one site to the other leaves alone what is shared, up to counters. -/
structure Inside (s t : Site R) : Prop where
  shelf : t.shelf = s.shelf
  ids : t.ids = s.ids
  clock : t.clock = s.clock

variable {s t u : Site R}

@[simp] theorem Inside.refl (s : Site R) : Inside s s :=
  ⟨rfl, rfl, rfl⟩

theorem Inside.trans (first : Inside s t) (second : Inside t u) : Inside s u :=
  ⟨second.shelf.trans first.shelf, second.ids.trans first.ids, second.clock.trans first.clock⟩

theorem inside_disable (s : Site R) : Inside s s.disable.1 := by
  rw [disable]
  split <;> exact ⟨rfl, rfl, rfl⟩

theorem inside_takeIn (s : Site R) (tables : List Table) : Inside s (s.takeIn tables).1 := by
  by_cases none : (TableSet.added (s.compactor.tables.receive tables).2).isEmpty
  · simp only [takeIn, none, if_true]
    exact ⟨rfl, rfl, rfl⟩
  · by_cases on : s.compactor.enabled = true <;> simp [takeIn, none, on] <;> exact ⟨rfl, rfl, rfl⟩

theorem inside_failJob (s : Site R) (job : Job R) (cause : Failure) :
    Inside s (s.failJob job cause) := ⟨rfl, rfl, rfl⟩

theorem inside_dropJob (s : Site R) (job : Job R) : Inside s (s.dropJob job) := ⟨rfl, rfl, rfl⟩

/-- A merge retires the live tables that make way. -/
theorem replace_shelf (s : Site R) (start : Moment) (inputs : List Table) (stop : Moment)
    (outputs : List Table) :
    (s.replace start inputs stop outputs).shelf =
      (s.compactor.tables.removeAll inputs).2.foldl Shelf.retire s.shelf := by
  by_cases on : s.compactor.enabled = true <;> simp [replace, on] <;> rfl

theorem replace_ids (s : Site R) (start : Moment) (inputs : List Table) (stop : Moment)
    (outputs : List Table) : (s.replace start inputs stop outputs).ids = s.ids := by
  by_cases on : s.compactor.enabled = true <;> simp [replace, on] <;> rfl

theorem replace_clock (s : Site R) (start : Moment) (inputs : List Table) (stop : Moment)
    (outputs : List Table) : (s.replace start inputs stop outputs).clock = s.clock := by
  by_cases on : s.compactor.enabled = true <;> simp [replace, on] <;> rfl

variable [Quantity R]

theorem inside_switchOn (s : Site R) : Inside s s.switchOn := ⟨rfl, rfl, rfl⟩

theorem inside_passOver (s : Site R) : Inside s s.passOver := by
  rw [passOver, reportPending_eq]
  exact ⟨rfl, rfl, rfl⟩

theorem inside_handOver (s : Site R) (chosen : Selection R) : Inside s (s.handOver chosen) := by
  rw [handOver, reportPending_eq]
  exact ⟨rfl, rfl, rfl⟩

end TieredCompaction.Site
