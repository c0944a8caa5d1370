import TieredCompaction.Proofs.Meter.Stepwise
/-!
What restoring erases. Of all that a meter was told before, a restored one keeps the count of its
reads and nothing else (`matches_restore`). So two meters that are restored alike tell the same
rates from then on, to the last bit, whatever is asked of them at whatever times; and until an
interval has ended they tell the rates restored.
-/
namespace TieredCompaction

variable {R : Type}

namespace MeterCall

/-- The window whose rate a call asks for. -/
def asked : MeterCall R → Option Window
  | rate window _ => some window
  | _ => none

/-- The reads that a call marks. -/
def marked : MeterCall R → Nat
  | mark reads _ => reads
  | _ => 0

def restores : MeterCall R → Bool
  | restore .. => true
  | _ => false

end MeterCall

/-- A rate as it is restored: one that is negative or not finite counts as zero. -/
def Meter.usable (rate : Float) : Float :=
  if rate.isFinite ∧ 0 ≤ rate then rate else 0

theorem GivenRate.clamped_ofFloat (rate : Float) :
    (GivenRate.ofFloat rate).clamped = Meter.usable rate := by
  have zero : (Quantity.ofNat 0 : Float) = 0 := by decide +kernel
  rw [Meter.usable, GivenRate.ofFloat]
  by_cases finite : rate.isFinite = true
  · rw [if_pos finite]
    change (if decide ((Quantity.ofNat 0 : Float) ≤ rate) = true then rate else Quantity.ofNat 0) = _
    simp only [zero, finite, decide_eq_true_eq, true_and]
  · rw [if_neg finite, if_neg fun both => finite both.1]
    exact zero

namespace Meter

/-- Two meters are the same but for the count of all their reads. -/
structure Matches (m n : Meter R) : Prop where
  short : m.short = n.short
  long : m.long = n.long
  uncounted : m.uncounted = n.uncounted
  lastTick : m.lastTick = n.lastTick

variable [Quantity R] {m n : Meter R}

theorem count_catchUp (m : Meter R) (now : Int) : (m.catchUp now).count = m.count := by
  cases some : m.ended now with
  | zero => rw [catchUp_of_ended_eq_zero some]
  | succ k => rw [catchUp_of_ended_eq_succ some, tick]

theorem weight_catchUp (m : Meter R) (now : Int) (window : Window) :
    ((m.catchUp now).averaging window).weight = (m.averaging window).weight := by
  cases some : m.ended now with
  | zero => rw [catchUp_of_ended_eq_zero some]
  | succ k =>
    have ticked := congrArg Average.weight (m.averaging_tick window)
    rw [Average.weight_fold] at ticked
    rw [catchUp_of_ended_eq_succ some, ← ticked]
    cases window <;> exact Average.weight_idle _ k

theorem weight_run (m : Meter R) (calls : List (MeterCall R)) (window : Window) :
    ((m.run calls).averaging window).weight = (m.averaging window).weight := by
  induction calls generalizing m with
  | nil => rfl
  | cons call rest ih =>
    refine (ih (m.perform call)).trans ?_
    cases call with
    | mark reads now =>
      refine Eq.trans ?_ (m.weight_catchUp now window)
      cases window <;> rfl
    | rate _ now => exact m.weight_catchUp now window
    | restore short long now => cases window <;> rfl

namespace Matches

theorem catchUp (same : m.Matches n) (now : Int) : (m.catchUp now).Matches (n.catchUp now) := by
  have ended : m.ended now = n.ended now := by rw [Meter.ended, Meter.ended, same.lastTick]
  cases some : m.ended now with
  | zero =>
    rw [catchUp_of_ended_eq_zero some, catchUp_of_ended_eq_zero (ended ▸ some)]
    exact same
  | succ k =>
    rw [catchUp_of_ended_eq_succ some, catchUp_of_ended_eq_succ (ended ▸ some)]
    constructor <;> simp only [tick, same.short, same.long, same.uncounted, same.lastTick]

theorem perform (same : m.Matches n) (call : MeterCall R) :
    (m.perform call).Matches (n.perform call) := by
  cases call with
  | mark reads now =>
    have caught := same.catchUp now
    refine ⟨caught.short, caught.long, ?_, caught.lastTick⟩
    simp only [Meter.perform, mark, caught.uncounted]
  | rate window now => exact same.catchUp now
  | restore short long now =>
    constructor
    case short => exact congrArg (Average.restore · short) same.short
    case long => exact congrArg (Average.restore · long) same.long
    case uncounted => rfl
    case lastTick => rfl

theorem answer (same : m.Matches n) (call : MeterCall R) : m.answer call = n.answer call := by
  cases call with
  | mark | restore => rfl
  | rate window now =>
    have caught := same.catchUp now
    cases window
    · exact congrArg (fun a : Average R => some a.rate) caught.short
    · exact congrArg (fun a : Average R => some a.rate) caught.long

theorem readings (same : m.Matches n) (calls : List (MeterCall R)) :
    m.readings calls = n.readings calls := by
  induction calls generalizing m n with
  | nil => rfl
  | cons call rest ih => rw [Meter.readings, Meter.readings, same.answer, ih (same.perform call)]

end Matches

/-- Of what a meter was told, restoring leaves the count of reads. -/
theorem matches_restore
    (weights : ∀ window, (m.averaging window).weight = (n.averaging window).weight)
    (short long : GivenRate R) (now : Int) :
    (m.restore short long now).Matches (n.restore short long now) := by
  have shorter : m.short.weight = n.short.weight := weights .short
  have longer : m.long.weight = n.long.weight := weights .long
  constructor
  case short => simp only [restore, Average.restore, shorter]
  case long => simp only [restore, Average.restore, longer]
  case uncounted => rfl
  case lastTick => rfl

/-- Reads are counted modulo `2 ^ 64`, whatever becomes of the rates. -/
theorem count_run (small : m.count < UInt64.size) (calls : List (MeterCall R)) :
    (m.run calls).count = (m.count + (calls.map (·.marked)).sum) % UInt64.size := by
  induction calls generalizing m with
  | nil => exact (Nat.mod_eq_of_lt small).symm
  | cons call rest ih =>
    have first : (m.perform call).count = (m.count + call.marked) % UInt64.size := by
      cases call with
      | mark reads now => rw [perform, mark, count_catchUp]; rfl
      | rate window now => exact (m.count_catchUp now).trans (Nat.mod_eq_of_lt small).symm
      | restore short long now => exact (Nat.mod_eq_of_lt small).symm
    have below : (m.perform call).count < UInt64.size := first ▸ Nat.mod_lt _ (by decide)
    rw [List.map_cons, List.sum_cons, ← Nat.add_assoc, ← Nat.mod_add_mod, ← first]
    exact ih below

/-- The same calls leave the counts of two meters as far apart as they were. -/
theorem counts_apart (small : m.count < UInt64.size) (less : n.count < UInt64.size)
    (calls : List (MeterCall R)) :
    UInt64.ofNat (m.run calls).count - UInt64.ofNat (n.run calls).count =
        UInt64.ofNat m.count - UInt64.ofNat n.count ∧
      ((m.count + (calls.map (·.marked)).sum < UInt64.size ∧
          n.count + (calls.map (·.marked)).sum < UInt64.size) →
        ((m.run calls).count : Int) - (n.run calls).count = m.count - n.count) := by
  rw [count_run small, count_run less]
  constructor
  · have wrapped (count : Nat) : UInt64.ofNat (count % UInt64.size) = UInt64.ofNat count :=
      UInt64.ofNat_mod_size
    rw [wrapped, wrapped, UInt64.ofNat_add, UInt64.ofNat_add]
    grind
  · rintro ⟨fewer, few⟩
    rw [Nat.mod_eq_of_lt fewer, Nat.mod_eq_of_lt few]
    omega

/-- A meter that was restored tells nothing else as long as its first interval is open. -/
theorem readings_of_open {rates : Window → R} {now : Int} (told : ∀ window, m.average window = rates window)
    (last : m.lastTick = now) {calls : List (MeterCall R)}
    (soon : ∀ call ∈ calls, call.restores = false ∧ call.time < now + interval) :
    m.readings calls = (calls.filterMap (·.asked)).map rates := by
  induction calls generalizing m with
  | nil => rfl
  | cons call rest ih =>
    obtain ⟨⟨kept, early⟩, later⟩ := List.forall_mem_cons.1 soon
    cases call with
    | mark reads time =>
      have unended : m.catchUp time = m := catchUp_of_lt (last ▸ early)
      have next : m.perform (.mark reads time) = { m with
          uncounted := min (m.uncounted + reads) (UInt64.size - 1)
          count := (m.count + reads) % UInt64.size } := by
        rw [perform, mark, unended]
      rw [readings, next]
      exact ih told last later
    | rate window time =>
      have unended : m.catchUp time = m := catchUp_of_lt (last ▸ early)
      have answer : m.answer (.rate window time) = some (rates window) := by
        rw [Meter.answer, sample, rate, unended, told]
      have next : m.perform (.rate window time) = m := unended
      rw [readings, answer, next, ih told last later]
      rfl
    | restore short long time => exact Bool.noConfusion kept

/-- Only the later one of two rates that are restored counts. -/
theorem restore_restore (m : Meter R) (short long other another : GivenRate R) (before now : Int) :
    (m.restore other another before).restore short long now = m.restore short long now := rfl

/-- Two meters of any past are restored to the same rates, at an instant that may lie before all that
they were asked. From then on both tell the same rates, whatever is asked, and their counts differ
as before. What was restored in between is forgotten, too. Until the first interval from there has
ended, the rates told are those restored, where negative and unusable ones count as zero. -/
theorem restoring_erases_past (start other : Int) (past differing : List (MeterCall Float))
    (short long : Float) (now : Int) :
    let m := (fresh start).run past
    let n := (fresh other).run differing
    let given : MeterCall Float := .restore (.ofFloat short) (.ofFloat long) now
    (∀ calls,
      (m.perform given).readings calls = (n.perform given).readings calls ∧
      UInt64.ofNat ((m.perform given).run calls).count -
          UInt64.ofNat ((n.perform given).run calls).count =
        UInt64.ofNat m.count - UInt64.ofNat n.count ∧
      ((m.count + (calls.map (·.marked)).sum < UInt64.size ∧
          n.count + (calls.map (·.marked)).sum < UInt64.size) →
        (((m.perform given).run calls).count : Int) - ((n.perform given).run calls).count =
          m.count - n.count)) ∧
    (∀ shorter longer before,
      (m.perform (.restore shorter longer before)).perform given = m.perform given) ∧
    ∀ calls, (∀ call ∈ calls, call.restores = false ∧ call.time < now + interval) →
      (m.perform given).readings calls = (calls.filterMap (·.asked)).map fun
        | .short => usable short
        | .long => usable long := by
  intro m n given
  have small (start : Int) (past : List (MeterCall Float)) :
      ((fresh start : Meter Float).run past).count < UInt64.size := by
    have none : (fresh start : Meter Float).count < UInt64.size := show 0 < UInt64.size by decide
    rw [count_run none]
    exact Nat.mod_lt _ (by decide)
  refine ⟨fun calls => ⟨?_, ?_⟩, fun shorter longer before =>
    m.restore_restore _ _ shorter longer before now, fun calls soon => ?_⟩
  · refine (matches_restore (fun window => ?_) _ _ now).readings calls
    rw [weight_run, weight_run]
    cases window <;> rfl
  · -- restoring leaves both counts as they are
    exact counts_apart (m := m.perform given) (n := n.perform given) (small start past)
      (small other differing) calls
  · refine readings_of_open (fun window => ?_) rfl soon
    cases window
    · exact GivenRate.clamped_ofFloat short
    · exact GivenRate.clamped_ofFloat long

/-- A meter with reads waiting and rates of its own, and one that was opened just now, are restored to
an instant before all that: two and a half reads in a second, and less than none. Within five seconds
from there they tell that, though reads are marked and the clock goes back; later they fold in the
same reads and forget the same rates. -/
theorem late_restore_forgets :
    let s : Int := 10 ^ 9
    let past : List (MeterCall Float) :=
      [.mark 300 s, .rate .short (6 * s), .restore (.finite 8) .unusable (7 * s), .mark 50 (8 * s)]
    let m := (fresh 0).run past
    let n : Meter Float := (fresh (100 * s)).run []
    let given : MeterCall Float := .restore (.ofFloat 2.5) (.ofFloat (-1)) (-3 * s)
    let calls : List (MeterCall Float) :=
      [.mark 10 (-s), .rate .short s, .rate .long (-20 * s)]
    let later : List (MeterCall Float) :=
      [.rate .long (2 * s), .restore (.finite 4) (.finite 2) (3 * s), .mark 7 (4 * s),
        .rate .short (30 * s)]
    (m.average .short = 8 ∧ n.average .short = 0 ∧ m.uncounted = 50 ∧ n.uncounted = 0) ∧
      (∀ call ∈ calls, call.restores = false ∧ call.time < -3 * s + interval) ∧
      (m.perform given).readings calls = [2.5, 0] ∧
      (m.perform given).readings (calls ++ later) = (n.perform given).readings (calls ++ later) ∧
      (m.count, n.count) = (350, 0) ∧
      (((m.perform given).run (calls ++ later)).count : Int) -
        ((n.perform given).run (calls ++ later)).count = 350 := by
  intro s past m n given calls later
  obtain ⟨alike, _, open_⟩ := restoring_erases_past 0 (100 * s) past [] 2.5 (-1) (-3 * s)
  have soon : ∀ call ∈ calls, call.restores = false ∧ call.time < -3 * s + interval := by
    decide +kernel
  have told : (m.perform given).readings calls = [2.5, 0] :=
    (open_ calls soon).trans (by decide +kernel)
  obtain ⟨readings, _, apart⟩ := alike (calls ++ later)
  exact ⟨by decide +kernel, soon, told, readings, by decide +kernel,
    (apart (by decide +kernel)).trans (by decide +kernel)⟩

end Meter

end TieredCompaction
