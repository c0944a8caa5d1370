import TieredCompaction.Proofs.Meter.CatchUp
import Mathlib.Algebra.BigOperators.Group.List.Basic
/-!
A meter of one interval at a time. It goes from the end of one interval to the end of the next, and
so is slower than the meter of a table, which takes all idle intervals in one go; in exact
arithmetic both tell the same rates, whatever calls are made at whatever times.
-/
namespace TieredCompaction

/-- What can be asked of a meter, and when. -/
inductive MeterCall (R : Type) where
  | mark (reads : Nat) (now : Int)
  | rate (window : Window) (now : Int)
  | restore (short long : GivenRate R) (now : Int)

def MeterCall.time {R : Type} : MeterCall R → Int
  | mark _ now | rate _ now | restore _ _ now => now

namespace Meter

variable {R : Type} [Quantity R]

def perform (m : Meter R) : MeterCall R → Meter R
  | .mark reads now => m.mark reads now
  | .rate window now => (m.sample window now).2
  | .restore short long now => m.restore short long now

/-- The rate that a call asks for. -/
def answer (m : Meter R) : MeterCall R → Option R
  | .rate window now => some (m.sample window now).1
  | _ => none

def run (m : Meter R) (calls : List (MeterCall R)) : Meter R :=
  calls.foldl perform m

/-- The rates that calls ask for, one after the other. -/
def readings (m : Meter R) : List (MeterCall R) → List R
  | [] => []
  | call :: rest => (m.answer call).toList ++ (m.perform call).readings rest

/-- Whether a call comes within `2 ^ 31` intervals of the last one that ended, and leaves fewer than
`2 ^ 64` reads in the open one. -/
def Within (m : Meter R) : MeterCall R → Prop
  | .mark reads now => m.ended now ≤ 2 ^ 31 ∧ (m.catchUp now).uncounted + reads < 2 ^ 64
  | .rate _ now => m.ended now ≤ 2 ^ 31
  | .restore .. => True

instance (m : Meter R) : (call : MeterCall R) → Decidable (m.Within call)
  | .mark .. => inferInstanceAs (Decidable (_ ∧ _))
  | .rate .. => inferInstanceAs (Decidable (_ ≤ _))
  | .restore .. => inferInstanceAs (Decidable True)

def AllWithin (m : Meter R) : List (MeterCall R) → Prop
  | [] => True
  | call :: rest => m.Within call ∧ (m.perform call).AllWithin rest

instance decidableAllWithin (m : Meter R) : (calls : List (MeterCall R)) →
    Decidable (m.AllWithin calls)
  | [] => inferInstanceAs (Decidable True)
  | call :: rest =>
    let _ := decidableAllWithin (m.perform call) rest
    inferInstanceAs (Decidable (m.Within call ∧ (m.perform call).AllWithin rest))

theorem AllWithin.behind {m : Meter R} {first rest : List (MeterCall R)}
    (within : m.AllWithin (first ++ rest)) : (m.run first).AllWithin rest := by
  induction first generalizing m with
  | nil => exact within
  | cons call first ih => exact ih within.2

def averaging (m : Meter R) : Window → Average R
  | .short => m.short
  | .long => m.long

omit [Quantity R] in
theorem average_eq (m : Meter R) (window : Window) :
    m.average window = (m.averaging window).rate := by
  cases window <;> rfl

@[simp] theorem averaging_tick (m : Meter R) (window : Window) :
    m.tick.averaging window = (m.averaging window).fold m.uncounted := by
  cases window <;> rfl

end Meter

/-- A meter that ends one interval after the other. No window has a rate before the first end. -/
structure StepMeter (K : Type) where
  weight : Window → K
  rate : Window → Option K
  uncounted : Nat
  lastTick : Int

variable {K : Type} [Field K]

namespace StepMeter

def start (weight : Window → K) (now : Int) : StepMeter K :=
  { weight, rate := fun _ => none, uncounted := 0, lastTick := now }

/-- Ends the open interval, five seconds after the last one. -/
def tick (m : StepMeter K) : StepMeter K :=
  let seen : K := m.uncounted / 5
  { m with
    rate := fun window => some (match m.rate window with
      | none => seen
      | some rate => rate + m.weight window * (seen - rate))
    uncounted := 0
    lastTick := m.lastTick + Meter.interval }

/-- Ends intervals as long as they have ended by `now`. -/
def advance (m : StepMeter K) (now : Int) : StepMeter K :=
  if m.lastTick + Meter.interval ≤ now then m.tick.advance now else m
termination_by (now - m.lastTick).toNat
decreasing_by
  simp only [tick, Meter.interval] at *
  omega

theorem advance_eq_iterate (m : StepMeter K) (now : Int) :
    m.advance now = tick^[(now - m.lastTick).toNat / Meter.interval] m := by
  fun_induction advance m now with
  | case1 m ends ih =>
    have one : (now - m.lastTick).toNat / Meter.interval =
        (now - m.tick.lastTick).toNat / Meter.interval + 1 := by
      simp only [tick, Meter.interval] at ends ⊢
      omega
    rw [ih, one, Function.iterate_succ_apply]
  | case2 m unended =>
    have none : (now - m.lastTick).toNat / Meter.interval = 0 := by
      simp only [Meter.interval] at unended ⊢
      omega
    rw [none, Function.iterate_zero_apply]

variable [LinearOrder K]

def reading (m : StepMeter K) (window : Window) : K :=
  (m.rate window).getD 0

/-- A rate from outside, without its negative part; what is no number counts as zero. -/
def given : GivenRate K → K
  | .finite rate => max rate 0
  | .unusable => 0

def perform (m : StepMeter K) : MeterCall K → StepMeter K
  | .mark reads now => { m.advance now with uncounted := (m.advance now).uncounted + reads }
  | .rate _ now => m.advance now
  | .restore short long now =>
    { m with
      rate
        | .short => some (given short)
        | .long => some (given long)
      uncounted := 0
      lastTick := now }

def answer (m : StepMeter K) : MeterCall K → Option K
  | .rate window now => some ((m.advance now).reading window)
  | _ => none

def run (m : StepMeter K) (calls : List (MeterCall K)) : StepMeter K :=
  calls.foldl perform m

def readings (m : StepMeter K) : List (MeterCall K) → List K
  | [] => []
  | call :: rest => (m.answer call).toList ++ (m.perform call).readings rest

end StepMeter

namespace Meter

variable [LinearOrder K] [Gauge K] {m : Meter K} {call : MeterCall K}

/-- The meter of one interval at a time that is where this one is. -/
def stepped (m : Meter K) : StepMeter K :=
  { weight := fun window => (m.averaging window).weight
    rate := fun window =>
      if (m.averaging window).started then some (m.averaging window).rate else none
    uncounted := m.uncounted
    lastTick := m.lastTick }

theorem stepped_tick (m : Meter K) : m.tick.stepped = m.stepped.tick := by
  simp only [stepped, StepMeter.tick, averaging_tick, Average.weight_fold, Average.started_fold]
  congr 1
  funext window
  by_cases started : (m.averaging window).started = true
  · rw [Average.fold, if_pos started, if_pos started]
    rfl
  · rw [Average.fold, if_neg started, if_neg started]
    rfl

theorem stepped_catchUp {now : Int} (few : m.ended now ≤ 2 ^ 31) :
    (m.catchUp now).stepped = m.stepped.advance now := by
  rw [catchUp_eq_iterate few, StepMeter.advance_eq_iterate]
  exact Function.Semiconj.iterate_right stepped_tick (m.ended now) m

theorem clamped_eq (rate : GivenRate K) : rate.clamped = StepMeter.given rate := by
  have zero : (Quantity.ofNat 0 : K) = 0 := Nat.cast_zero
  cases rate with
  | finite rate =>
    change (if decide ((Quantity.ofNat 0 : K) ≤ rate) then rate else Quantity.ofNat 0) = max rate 0
    rw [zero]
    rcases le_total 0 rate with nonnegative | negative
    · simp [nonnegative]
    · rw [max_eq_right negative]
      split
      · next both => exact le_antisymm negative (of_decide_eq_true both)
      · rfl
  | unusable => exact zero

theorem uncounted_mark {reads : Nat} {now : Int} (within : m.Within (.mark reads now)) :
    (m.mark reads now).uncounted = (m.catchUp now).uncounted + reads := by
  have size : UInt64.size = 2 ^ 64 := rfl
  have less := within.2
  exact Nat.min_eq_left (by omega)

theorem stepped_perform (within : m.Within call) :
    (m.perform call).stepped = m.stepped.perform call := by
  cases call with
  | mark reads now =>
    rw [StepMeter.perform, ← stepped_catchUp within.1, perform, stepped, uncounted_mark within]
    rfl
  | rate window now => exact stepped_catchUp within
  | restore short long now =>
    simp only [perform, restore, StepMeter.perform, stepped]
    congr 1
    · funext window
      cases window <;> rfl
    · funext window
      cases window
      · exact congrArg some (clamped_eq short)
      · exact congrArg some (clamped_eq long)

/-- A window without a rate tells zero. -/
def ZeroUnstarted (m : Meter K) : Prop :=
  ∀ window, (m.averaging window).started = false → (m.averaging window).rate = 0

theorem zeroUnstarted_catchUp {now : Int} (few : m.ended now ≤ 2 ^ 31)
    (zero : m.ZeroUnstarted) : (m.catchUp now).ZeroUnstarted := by
  refine catchUp_keeps (fun m _ window unstarted => ?_) few zero
  rw [averaging_tick, Average.started_fold] at unstarted
  exact Bool.noConfusion unstarted

theorem zeroUnstarted_perform (within : m.Within call) (zero : m.ZeroUnstarted) :
    (m.perform call).ZeroUnstarted := by
  cases call with
  | mark reads now => exact zeroUnstarted_catchUp within.1 zero
  | rate window now => exact zeroUnstarted_catchUp within zero
  | restore short long now =>
    intro window unstarted
    cases window <;> exact Bool.noConfusion unstarted

omit [LinearOrder K] [Gauge K] in
theorem reading_stepped (zero : m.ZeroUnstarted) (window : Window) :
    m.stepped.reading window = m.average window := by
  rw [average_eq]
  cases started : (m.averaging window).started with
  | true => simp [StepMeter.reading, stepped, started]
  | false => simp [StepMeter.reading, stepped, started, zero window started]

theorem answer_stepped (within : m.Within call) (zero : m.ZeroUnstarted) :
    m.stepped.answer call = m.answer call := by
  cases call with
  | rate window now =>
    rw [StepMeter.answer, ← stepped_catchUp within,
      reading_stepped (zeroUnstarted_catchUp within zero)]
    rfl
  | _ => rfl

/-- Both meters go the same way, and tell the same rates. -/
theorem run_stepped {calls : List (MeterCall K)} (within : m.AllWithin calls)
    (zero : m.ZeroUnstarted) :
    (m.run calls).stepped = m.stepped.run calls ∧ m.readings calls = m.stepped.readings calls ∧
      (m.run calls).ZeroUnstarted := by
  induction calls generalizing m with
  | nil => exact ⟨rfl, rfl, zero⟩
  | cons call rest ih =>
    obtain ⟨first, later⟩ := within
    obtain ⟨same, told, still⟩ := ih later (zeroUnstarted_perform first zero)
    rw [stepped_perform first] at same told
    refine ⟨same, ?_, still⟩
    rw [readings, StepMeter.readings, told, answer_stepped first zero]

/-- What a call does and tells does not depend on whether the meter was looked at before. -/
theorem perform_catchUp {before : Int} (order : before ≤ call.time) (within : m.Within call) :
    (m.catchUp before).perform call = m.perform call ∧
      (m.catchUp before).answer call = m.answer call := by
  cases call with
  | mark reads now =>
    have same : (m.catchUp before).catchUp now = m.catchUp now := catchUp_catchUp order within.1
    rw [perform, perform, mark, mark, same]
    exact ⟨rfl, rfl⟩
  | rate window now =>
    have same := catchUp_catchUp order within
    constructor
    · exact same
    · exact congrArg (fun m => some (m.average window)) same
  | restore short long now => exact ⟨m.restore_catchUp short long before now, rfl⟩

end Meter

/-- What a meter starts from: its averages at an instant, and the reads marked since. -/
structure Ledger (K : Type) where
  since : Int
  base : Window → Average K
  marks : List Nat

namespace Ledger

variable [LinearOrder K] [Gauge K] {l : Ledger K} {m : Meter K} {call : MeterCall K}

/-- A restored meter starts anew. -/
def enter (l : Ledger K) : MeterCall K → Ledger K
  | .mark reads _ => { l with marks := l.marks ++ [reads] }
  | .rate .. => l
  | .restore short long now =>
    { since := now
      base
        | .short => (l.base .short).restore short
        | .long => (l.base .long).restore long
      marks := [] }

/-- All marks are in intervals. Those of the intervals that have ended are folded in, one interval
after the other; the others are the reads of the open one. -/
structure Settles (l : Ledger K) (m : Meter K) (ended : List (List Nat)) (rest : List Nat) :
    Prop where
  marks : ended.flatten ++ rest = l.marks
  uncounted : m.uncounted = rest.sum
  lastTick : m.lastTick = l.since + ended.length * Meter.interval
  averaging : ∀ window,
    m.averaging window = (ended.map List.sum).foldl Average.fold (l.base window)

theorem Settles.tick {ended : List (List Nat)} {rest : List Nat} (settles : l.Settles m ended rest) :
    l.Settles m.tick (ended ++ [rest]) [] where
  marks := by simpa using settles.marks
  uncounted := rfl
  lastTick := by
    rw [Meter.tick, settles.lastTick]
    simp only [List.length_append, List.length_singleton]
    push_cast
    ring
  averaging window := by
    rw [Meter.averaging_tick, settles.averaging window, settles.uncounted]
    simp

def Settled (l : Ledger K) (m : Meter K) : Prop :=
  ∃ ended rest, l.Settles m ended rest

theorem Settled.catchUp {now : Int} (settled : l.Settled m) (few : m.ended now ≤ 2 ^ 31) :
    l.Settled (m.catchUp now) :=
  Meter.catchUp_keeps (fun _ ⟨ended, rest, settles⟩ => ⟨ended ++ [rest], [], settles.tick⟩) few
    settled

theorem Settled.perform (settled : l.Settled m) (within : m.Within call) :
    (l.enter call).Settled (m.perform call) := by
  cases call with
  | mark reads now =>
    obtain ⟨ended, rest, settles⟩ := settled.catchUp within.1
    refine ⟨ended, rest ++ [reads], ?_, ?_, settles.lastTick, settles.averaging⟩
    · rw [enter, ← settles.marks, List.append_assoc]
    · rw [Meter.perform, Meter.uncounted_mark within, settles.uncounted]
      simp
  | rate window now => exact settled.catchUp within
  | restore short long now =>
    obtain ⟨ended, rest, settles⟩ := settled
    have restored (window : Window) (rate : GivenRate K) :
        (m.averaging window).restore rate = (l.base window).restore rate := by
      rw [settles.averaging window, Average.restore, Average.weight_foldl_fold]
      rfl
    refine ⟨[], [], rfl, rfl, ?_, fun window => ?_⟩
    · simp [Meter.perform, Meter.restore, enter]
    · cases window
      · exact restored .short short
      · exact restored .long long

theorem Settled.run {calls : List (MeterCall K)} (settled : l.Settled m)
    (within : m.AllWithin calls) : (calls.foldl enter l).Settled (m.run calls) := by
  induction calls generalizing l m with
  | nil => exact settled
  | cons call rest ih => exact ih (settled.perform within.1) within.2

end Ledger

namespace Meter

variable [LinearOrder K] [Gauge K]

/-- Whatever is asked in whatever order and at whatever times: a meter tells the rates of a meter of
one interval at a time, and is left where that one is. All reads marked since the meter was last
restored, or else opened, are in intervals that have ended, each folded in once and in order, or in
the open one. Asking for a rate on the way, no later than what is asked next, changes nothing. -/
theorem readings_eq_stepwise {weight : Window → K} {now : Int} {calls : List (MeterCall K)}
    (within : (withWeights (weight .short) (weight .long) now).AllWithin calls) :
    let m := withWeights (weight .short) (weight .long) now
    let e := StepMeter.start weight now
    m.readings calls = e.readings calls ∧
      (∀ window, (m.run calls).average window = (e.run calls).reading window) ∧
      (m.run calls).uncounted = (e.run calls).uncounted ∧
      (m.run calls).lastTick = (e.run calls).lastTick ∧
      (calls.foldl Ledger.enter { since := now, base := m.averaging, marks := [] }).Settled
        (m.run calls) ∧
      ∀ first call rest, calls = first ++ call :: rest → ∀ window before, before ≤ call.time →
        let n := m.run first
        (n.perform (.rate window before)).readings (call :: rest) = n.readings (call :: rest) ∧
          (n.perform (.rate window before)).run (call :: rest) = n.run (call :: rest) := by
  intro m e
  have starts : m.stepped = e := by
    simp only [stepped, e, StepMeter.start]
    congr 1
    · funext window
      cases window <;> rfl
    · funext window
      cases window <;> rfl
  have zero : m.ZeroUnstarted := by
    intro window _
    have none : (Quantity.ofNat 0 : K) = 0 := Nat.cast_zero
    cases window <;> exact none
  obtain ⟨same, told, still⟩ := run_stepped within zero
  rw [starts] at same told
  refine ⟨told, fun window => ?_, ?_, ?_, ?_, ?_⟩
  · rw [← same, reading_stepped still]
  · rw [← same, stepped]
  · rw [← same, stepped]
  · refine Ledger.Settled.run ⟨[], [], rfl, rfl, ?_, fun _ => rfl⟩ within
    simp [m, withWeights]
  · rintro first call rest rfl window before order n
    have looked : n.perform (.rate window before) = n.catchUp before := rfl
    obtain ⟨left, told⟩ := perform_catchUp order within.behind.1
    constructor
    · rw [looked, readings, readings, left, told]
    · rw [looked, run, run, List.foldl_cons, List.foldl_cons, left]

/-- Reads are marked and rates asked for while the clock goes back and forth, and rates are restored
in between. -/
theorem reads_told_stepwise :
    let s : Int := 10 ^ 9
    let weight : Window → ℚ
      | .short => 1 / 2
      | .long => 1 / 4
    let calls : List (MeterCall ℚ) :=
      [.mark 50 (2 * s), .mark 10 (-s), .rate .short (11 * s), .mark 100 (12 * s),
        .rate .long (23 * s), .rate .short (20 * s), .restore (.finite 8) .unusable (30 * s),
        .mark 25 (34 * s), .rate .short (41 * s), .rate .long (41 * s)]
    let m := withWeights (weight .short) (weight .long) 0
    m.AllWithin calls ∧ m.readings calls = (StepMeter.start weight 0).readings calls ∧
      m.readings calls = [6, 141 / 16, 13 / 2, 13 / 4, 15 / 16] := by
  intro s weight calls m
  have within : m.AllWithin calls := by decide +kernel
  exact ⟨within, (readings_eq_stepwise within).1, by decide +kernel⟩

end Meter

end TieredCompaction
