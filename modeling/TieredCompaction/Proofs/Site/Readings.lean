import TieredCompaction.Proofs.Meter.CatchUp
import TieredCompaction.Proofs.Site.Settling
import TieredCompaction.Proofs.Site.Surroundings
/-!
The readings of an evaluation. A meter that is read may keep what was folded in for it; here it does
not. At the same instant both have the same rates (`Shelf.sampleAll_eq`) and lead to the same choice
(`selection_keepReadings`), so a chain of passes that keeps its readings does what the chain does that
leaves the shelf alone, and then something `elsewhere` (`exists_elsewhere_passKeeping`): what holds of
all runs holds of runs that keep them. In exact arithmetic even the rates of later instants are the same
(`Shelf.hotness_of_caughtUp`); binary64 numbers may be rounded differently there.
-/
namespace TieredCompaction

def Holding.caughtUp {R : Type} [Quantity R] (h : Holding R) (now : Int) : Holding R :=
  { h with meter := h.meter.catchUp now }

namespace Shelf

section

variable {R : Type} [Quantity R] {s other : Shelf R} {now : Int}

/-- The shelf after a look at all its meters. -/
def caughtUp (s : Shelf R) (now : Int) : Shelf R :=
  { s with holdings := s.holdings.map (·.caughtUp now) }

/-- Reads the rate of a table, and keeps what was folded in for it. -/
def sample (s : Shelf R) (now : Int) (t : Table) : R × Shelf R :=
  (s.hotness now t, s.updateMeter t fun m => (m.sample .short now).2)

/-- Reads the rates of tables one after the other. -/
def sampleAll (s : Shelf R) (now : Int) : List Table → List R × Shelf R
  | [] => ([], s)
  | t :: rest =>
    let first := s.sample now t
    let others := first.2.sampleAll now rest
    (first.1 :: others.1, others.2)

theorem hotness_caughtUp (s : Shelf R) (now : Int) (t : Table) :
    (s.caughtUp now).hotness now t = s.hotness now t := by
  rw [hotness, hotness, meter?, meter?, caughtUp, Array.getElem?_map]
  cases s.holdings[t.place]? with
  | none => rfl
  | some h => exact congrArg (Meter.average · .short) (h.meter.catchUp_idem now)

/-- Shelves that are alike after a look at all meters have the same rates. -/
theorem hotness_congr (same : s.caughtUp now = other.caughtUp now) (t : Table) :
    s.hotness now t = other.hotness now t := by
  rw [← hotness_caughtUp, same, hotness_caughtUp]

omit [Quantity R] in
theorem update_id (s : Shelf R) (place : Nat) : s.update place id = s := by
  have same : s.holdings.modify place id = s.holdings := by
    apply Array.ext_getElem?
    intro other
    simp [Array.getElem?_modify]
  rw [update, same]

/-- A holding may be changed before a look at all meters, or in the same way after it. -/
theorem caughtUp_update {change after : Holding R → Holding R}
    (same : ∀ h, (change h).caughtUp now = after (h.caughtUp now)) (s : Shelf R) (place : Nat) :
    (s.update place change).caughtUp now = (s.caughtUp now).update place after := by
  simp only [caughtUp, update, Shelf.mk.injEq]
  apply Array.ext_getElem?
  intro other
  simp only [Array.getElem?_map, Array.getElem?_modify]
  split
  · cases s.holdings[other]? with
    | none => rfl
    | some h => exact congrArg some (same h)
  · rfl

theorem caughtUp_sample (s : Shelf R) (now : Int) (t : Table) :
    (s.sample now t).2.caughtUp now = s.caughtUp now := by
  have kept (h : Holding R) :
      Holding.caughtUp { h with meter := h.meter.catchUp now } now = id (h.caughtUp now) := by
    simp only [Holding.caughtUp, Meter.catchUp_idem, id]
  exact (caughtUp_update kept s t.place).trans ((s.caughtUp now).update_id t.place)

/-- Rates that are read one after the other are those of the shelf as it was. -/
theorem sampleAll_eq (s : Shelf R) (now : Int) (tables : List Table) :
    (s.sampleAll now tables).1 = tables.map (s.hotness now) ∧
      (s.sampleAll now tables).2.caughtUp now = s.caughtUp now := by
  induction tables generalizing s with
  | nil => exact ⟨rfl, rfl⟩
  | cons t rest ih =>
    have first := s.caughtUp_sample now t
    obtain ⟨rates, last⟩ := ih (s.sample now t).2
    constructor
    · have same : (s.sample now t).2.hotness now = s.hotness now := funext (hotness_congr first)
      simp only [sampleAll, rates, same, List.map_cons]
      rfl
    · exact last.trans first

theorem caughtUp_retire (s : Shelf R) (now : Int) (t : Table) :
    (s.retire t).caughtUp now = (s.caughtUp now).retire t :=
  caughtUp_update (fun _ => rfl) s t.place

theorem caughtUp_retireAll (s : Shelf R) (now : Int) (tables : List Table) :
    (tables.foldl retire s).caughtUp now = tables.foldl retire (s.caughtUp now) := by
  induction tables generalizing s with
  | nil => rfl
  | cons t rest ih => rw [List.foldl_cons, ih, caughtUp_retire, List.foldl_cons]

/-- A new table is the same on a shelf whose meters were looked at. -/
theorem add_caughtUp (s : Shelf R) (now : Int) (id size : Nat) :
    (s.caughtUp now).add id size (.fresh now) =
      ((s.add id size (.fresh now)).1, (s.add id size (.fresh now)).2.caughtUp now) := by
  have fresh : (Meter.fresh now : Meter R).catchUp now = .fresh now := by
    apply Meter.catchUp_of_lt
    exact Int.lt_add_of_pos_right now (by decide)
  simp [add, caughtUp, Holding.caughtUp, fresh]

end

variable {K : Type} [Field K] [LinearOrder K] [Gauge K]

/-- Without rounding, a look at the meters changes no rate of a later instant either. -/
theorem hotness_of_caughtUp {s : Shelf K} {now later : Int} {t : Table} (order : now ≤ later)
    (few : ∀ m ∈ s.meter? t, m.ended later ≤ 2 ^ 31) :
    (s.caughtUp now).hotness later t = s.hotness later t := by
  have meters : (s.caughtUp now).meter? t = (s.meter? t).map (·.catchUp now) := by
    simp only [meter?, caughtUp, Array.getElem?_map, Option.map_map]
    rfl
  rw [hotness, hotness, meters]
  cases held : s.meter? t with
  | none => rfl
  | some m => exact congrArg (Meter.average · .short) (Meter.catchUp_catchUp order (few m held))

end Shelf

namespace Site

variable {R : Type} [Quantity R] {s t : Site R}

/-- The site after a look at all meters. -/
def caughtUp (s : Site R) : Site R :=
  { s with shelf := s.shelf.caughtUp s.clock.instant }

/-- The tables whose rates an evaluation reads, in this order: all tables of the buckets that are large
enough for a job. -/
def readings (s : Site R) : List Table :=
  (s.buckets.filter (s.compactor.thresholds.least ≤ ·.length)).flatMap (·.items)

/-- The site once these rates are read and kept. -/
def keepReadings (s : Site R) : Site R :=
  { s with shelf := (s.shelf.sampleAll s.clock.instant s.readings).2 }

/-- A chain of at most `limit` passes, each of which keeps its readings. -/
def passKeeping : Nat → Site R → Site R
  | 0, s => s
  | limit + 1, s =>
    if s.compactor.enabled then
      match s.keepReadings.evaluate with
      | (s, none) => s
      | (s, some job) =>
        match s.compactor.intake with
        | .keep => s.park job
        | .drop => s.abandon job
        | .merge => passKeeping limit (s.mergeAtOnce job)
    else s

theorem caughtUp_keepReadings (s : Site R) : s.keepReadings.caughtUp = s.caughtUp := by
  have same := (s.shelf.sampleAll_eq s.clock.instant s.readings).2
  simp only [caughtUp, keepReadings, same]

theorem selection_caughtUp (s : Site R) : s.caughtUp.selection = s.selection := by
  have rates : s.caughtUp.hotness = s.hotness :=
    funext (s.shelf.hotness_caughtUp s.clock.instant)
  rw [selection, rates]
  rfl

/-- The choice is the same with the readings kept. -/
theorem selection_keepReadings (s : Site R) : s.keepReadings.selection = s.selection := by
  rw [← selection_caughtUp, caughtUp_keepReadings, selection_caughtUp]

theorem takeUp_caughtUp (s : Site R) (chosen? : Option (Selection R)) :
    s.caughtUp.takeUp chosen? = ((s.takeUp chosen?).1.caughtUp, (s.takeUp chosen?).2) := by
  cases chosen? with
  | none => rfl
  | some chosen =>
    have tables : s.caughtUp.compactor.tables = s.compactor.tables := rfl
    simp only [takeUp, tables]
    cases s.compactor.tables.hide? chosen.tables <;> rfl

theorem reportPending_caughtUp (s : Site R) :
    s.caughtUp.reportPending = s.reportPending.caughtUp := by
  rw [reportPending_eq, reportPending_eq]
  rfl

/-- An evaluation does the same after a look at all meters. -/
theorem evaluate_caughtUp (s : Site R) :
    s.caughtUp.evaluate = (s.evaluate.1.caughtUp, s.evaluate.2) := by
  have looked : s.caughtUp.look = s.look.caughtUp := rfl
  simp only [evaluate, looked, selection_caughtUp, takeUp_caughtUp, reportPending_caughtUp]
  generalize s.look.takeUp s.look.selection = taken
  obtain ⟨u, _ | chosen⟩ := taken
  · rfl
  · rfl

omit [Quantity R] in
/-- A merge changes a shelf by what it retires, and is not changed by it. -/
theorem replace_of_shelf (s : Site R) (shelf : Shelf R) (start : Moment) (inputs : List Table)
    (stop : Moment) (outputs : List Table) :
    replace { s with shelf } start inputs stop outputs =
      { s.replace start inputs stop outputs with
        shelf := (s.compactor.tables.removeAll inputs).2.foldl Shelf.retire shelf } := by
  by_cases on : s.compactor.enabled = true <;> simp [replace, on] <;> rfl

theorem replace_caughtUp (s : Site R) (start : Moment) (inputs : List Table) (stop : Moment)
    (outputs : List Table) :
    s.caughtUp.replace start inputs stop outputs =
      (s.replace start inputs stop outputs).caughtUp := by
  simp only [caughtUp, replace_of_shelf, replace_shelf, replace_clock, Shelf.caughtUp_retireAll]

theorem mergeOutput_caughtUp (s : Site R) (job : Job R) :
    s.caughtUp.mergeOutput job = ((s.mergeOutput job).1, (s.mergeOutput job).2.caughtUp) := by
  have made := s.shelf.add_caughtUp s.clock.instant s.drawId.1 job.inputSize
  simp only [mergeOutput, makeTable, caughtUp, drawId] at made ⊢
  rw [made]

theorem mergeAtOnce_caughtUp (s : Site R) (job : Job R) :
    s.caughtUp.mergeAtOnce job = (s.mergeAtOnce job).caughtUp := by
  simp only [mergeAtOnce, mergeOutput_caughtUp]
  exact replace_caughtUp _ _ _ _ _

/-- A chain of passes does the same after a look at all meters. -/
theorem passUpTo_caughtUp (s : Site R) (limit : Nat) :
    (s.caughtUp.passUpTo limit).1 = (s.passUpTo limit).1.caughtUp := by
  induction limit generalizing s with
  | zero => rfl
  | succ limit ih =>
    have enabled : s.caughtUp.compactor.enabled = s.compactor.enabled := rfl
    simp only [passUpTo, enabled, evaluate_caughtUp]
    split
    · generalize s.evaluate = evaluated
      obtain ⟨u, _ | job⟩ := evaluated
      · rfl
      · have intake : u.caughtUp.compactor.intake = u.compactor.intake := rfl
        simp only [intake]
        cases u.compactor.intake with
        | keep => rfl
        | drop => rfl
        | merge =>
          simp only [mergeAtOnce_caughtUp]
          exact ih _
    · rfl

/-- A chain that keeps its readings does the same as one that does not, up to what the meters have
folded in by then. -/
theorem caughtUp_passKeeping (s : Site R) (limit : Nat) :
    (s.passKeeping limit).caughtUp = (s.passUpTo limit).1.caughtUp := by
  induction limit generalizing s with
  | zero => rfl
  | succ limit ih =>
    have same : (s.keepReadings.evaluate.1.caughtUp, s.keepReadings.evaluate.2) =
        (s.evaluate.1.caughtUp, s.evaluate.2) := by
      rw [← evaluate_caughtUp, caughtUp_keepReadings, evaluate_caughtUp]
    rw [passKeeping, passUpTo]
    generalize s.keepReadings.evaluate = kept at same
    generalize s.evaluate = left at same
    obtain ⟨t, job?⟩ := kept
    obtain ⟨u, other?⟩ := left
    obtain ⟨alike, rfl⟩ := Prod.mk.inj same
    split
    · cases job? with
      | none => exact alike
      | some job =>
        have intake : t.compactor.intake = u.compactor.intake :=
          congrArg (·.compactor.intake) alike
        simp only [intake]
        cases u.compactor.intake with
        | keep => exact congrArg (·.park job) alike
        | drop => exact congrArg (·.abandon job) alike
        | merge =>
          simp only [ih]
          rw [← passUpTo_caughtUp, ← mergeAtOnce_caughtUp, alike, mergeAtOnce_caughtUp,
            passUpTo_caughtUp]
    · rfl

/-- A call that keeps the readings of its evaluations is the call, and a look at meters afterwards. -/
theorem exists_elsewhere_passKeeping {call : Call R} (begins : s.begins call = some t) :
    ∃ shelf, t.passKeeping (t.tableCount + 1) =
      s.run [call, .elsewhere t.pass.1.ids shelf t.pass.1.clock] := by
  obtain ⟨-, performed⟩ := of_begins begins
  have same := t.caughtUp_passKeeping (t.tableCount + 1)
  rw [← pass] at same
  refine ⟨(t.passKeeping (t.tableCount + 1)).shelf, ?_⟩
  change _ = (s.perform call).elsewhere _ _ _
  rw [performed]
  generalize t.passKeeping (t.tableCount + 1) = kept at same ⊢
  simp only [caughtUp, Site.mk.injEq] at same
  obtain ⟨compactor, counters, ids, -, clock, notices⟩ := same
  rw [elsewhere, ← compactor, ← counters, ← ids, ← clock, ← notices]

end Site

end TieredCompaction
