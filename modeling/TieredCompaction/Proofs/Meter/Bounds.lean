import Mathlib.Algebra.Order.Field.Basic
import Mathlib.Algebra.Order.Ring.Rat
import Mathlib.Tactic.NormNum
import TieredCompaction.Proofs.Meter.Stepwise
/-!
Bounds of read rates, in exact arithmetic. A rate lies between zero and the greatest rate that was
restored or counted in an interval, whatever is asked of the meter at whatever times; and while no
reads are marked it only falls. Each interval moves the rate to a point between the old rate and the
one counted, which is why no order of calls can drive it out.
-/
namespace TieredCompaction

/-- What a meter was told: the reads of all intervals that have ended, the rates that were restored,
and the marks of the open interval. -/
structure Chronicle (K : Type) where
  counts : List Nat
  restored : Window → List K
  marks : List Nat
  since : Int

variable {K : Type} [Field K] [LinearOrder K]

namespace Chronicle

def opened (now : Int) : Chronicle K :=
  { counts := [], restored := fun _ => [], marks := [], since := now }

/-- The reads of some marks. No more than `2 ^ 64 - 1` of them count. -/
def readsOf (marks : List Nat) : Nat :=
  min marks.sum (UInt64.size - 1)

theorem readsOf_concat (marks : List Nat) (reads : Nat) :
    readsOf (marks ++ [reads]) =
      min (readsOf marks + reads) (UInt64.size - 1) := by
  simp only [readsOf, List.sum_append, List.sum_singleton]
  omega

/-- Ends the intervals that are over. Marks belong to the first one; nobody read in the others. -/
def close (c : Chronicle K) (now : Int) : Chronicle K :=
  match (now - c.since).toNat / Meter.interval with
  | 0 => c
  | n + 1 =>
    { c with
      counts := c.counts ++ readsOf c.marks :: List.replicate n 0
      marks := []
      since := c.since + Meter.interval + n * Meter.interval }

def enter (c : Chronicle K) : MeterCall K → Chronicle K
  | .mark reads now => { c.close now with marks := (c.close now).marks ++ [reads] }
  | .rate _ now => c.close now
  | .restore short long now =>
    { c with
      restored
        | .short => c.restored .short ++ [StepMeter.given short]
        | .long => c.restored .long ++ [StepMeter.given long]
      marks := []
      since := now }

/-- The rates that a window was restored to, and those counted in the intervals of five seconds. -/
def rates (c : Chronicle K) (window : Window) : List K :=
  c.restored window ++ c.counts.map fun reads : Nat => (reads : K) / (5 : Nat)

/-- The greatest of these rates, or zero as long as there is none. -/
def peak (c : Chronicle K) (window : Window) : K :=
  (c.rates window).foldr max 0

omit [Field K] in
theorem foldr_max_le_iff {zero bound : K} {xs : List K} :
    xs.foldr max zero ≤ bound ↔ zero ≤ bound ∧ ∀ x ∈ xs, x ≤ bound := by
  induction xs with
  | nil => simp
  | cons x rest ih =>
    rw [List.foldr_cons, max_le_iff, ih, List.forall_mem_cons]
    tauto

variable {c d : Chronicle K} {window : Window}

theorem peak_nonneg (c : Chronicle K) (window : Window) : 0 ≤ c.peak window :=
  (foldr_max_le_iff.1 le_rfl).1

theorem le_peak {x : K} (member : x ∈ c.rates window) : x ≤ c.peak window :=
  (foldr_max_le_iff.1 le_rfl).2 x member

theorem peak_mono (more : c.rates window ⊆ d.rates window) : c.peak window ≤ d.peak window := by
  apply foldr_max_le_iff.2
  constructor
  · exact d.peak_nonneg window
  · intro x member
    exact le_peak (more member)

end Chronicle

theorem StepMeter.given_nonneg (rate : GivenRate K) : 0 ≤ StepMeter.given rate := by
  cases rate with
  | finite rate => exact le_max_right _ _
  | unusable => exact le_rfl

namespace Average

/-- A weight that leaves a share to what was seen and to what comes. -/
def Shared (a : Average K) : Prop :=
  0 < a.weight ∧ a.weight < 1

/-- The rate lies between zero and a bound. -/
def Within (bound : K) (a : Average K) : Prop :=
  0 ≤ a.rate ∧ a.rate ≤ bound

variable {a : Average K} {bound : K}

theorem Within.mono {more : K} (within : a.Within bound) (higher : bound ≤ more) : a.Within more :=
  ⟨within.1, within.2.trans higher⟩

end Average

variable [Gauge K]

namespace Average

variable {a : Average K}

theorem rate_fold (started : a.started = true) (count : Nat) :
    (a.fold count).rate = (1 - a.weight) * a.rate + a.weight * (count / 5) := by
  have five : (Quantity.ofNat 5 : K) = 5 := Nat.cast_ofNat
  have seen : (Quantity.ofNat count : K) = count := rfl
  rw [fold, if_pos started, five, seen]
  ring

theorem rate_fold_first (fresh : ¬ a.started = true) (count : Nat) :
    (a.fold count).rate = count / 5 := by
  have five : (Quantity.ofNat 5 : K) = 5 := Nat.cast_ofNat
  have seen : (Quantity.ofNat count : K) = count := rfl
  rw [fold, if_neg fresh, five, seen]

theorem rate_idle (a : Average K) (n : Nat) :
    (a.idle n).rate = a.rate * (1 - a.weight) ^ min n (2 ^ 31 - 1) := by
  have one : (Quantity.ofNat 1 : K) = 1 := Nat.cast_one
  have same : Nat.pow 2 31 = 2 ^ 31 := rfl
  rw [idle, same]
  split
  · next none => simp [none]
  · rw [power_eq _ (by omega), one]

theorem Shared.fold (shared : a.Shared) (count : Nat) : (a.fold count).Shared := by
  rwa [Shared, weight_fold]

theorem Shared.idle (shared : a.Shared) (n : Nat) : (a.idle n).Shared := by
  rwa [Shared, weight_idle]

end Average

namespace Meter

variable {m : Meter K} {c : Chronicle K} {now : Int}

theorem averaging_catchUp {n : Nat} (some : m.ended now = n + 1) (window : Window) :
    (m.catchUp now).averaging window = ((m.averaging window).fold m.uncounted).idle n := by
  rw [catchUp_of_ended_eq_succ some]
  cases window <;> rfl

theorem uncounted_catchUp_of_succ {n : Nat} (some : m.ended now = n + 1) :
    (m.catchUp now).uncounted = 0 := by
  rw [catchUp_of_ended_eq_succ some, tick]

theorem shared_catchUp (shared : ∀ window, (m.averaging window).Shared) (now : Int)
    (window : Window) : ((m.catchUp now).averaging window).Shared := by
  cases some : m.ended now with
  | zero =>
    rw [catchUp_of_ended_eq_zero some]
    exact shared window
  | succ n =>
    rw [averaging_catchUp some]
    exact ((shared window).fold _).idle n

/-- A meter is where a chronicle says, and its rates are within the peaks of the chronicle. -/
structure Follows (m : Meter K) (c : Chronicle K) : Prop where
  uncounted : m.uncounted = Chronicle.readsOf c.marks
  lastTick : m.lastTick = c.since
  shared : ∀ window, (m.averaging window).Shared
  within : ∀ window, (m.averaging window).Within (c.peak window)

theorem Follows.restore (follows : m.Follows c) (short long : GivenRate K) (now : Int) :
    (m.restore short long now).Follows (c.enter (.restore short long now)) := by
  have given (window : Window) (rate : GivenRate K)
      (told : StepMeter.given rate ∈ (c.enter (.restore short long now)).rates window) :
      ((m.averaging window).restore rate).Within
        ((c.enter (.restore short long now)).peak window) := by
    rw [Average.Within, Average.restore, clamped_eq]
    exact ⟨StepMeter.given_nonneg rate, Chronicle.le_peak told⟩
  constructor
  case uncounted => rfl
  case lastTick => rfl
  case shared =>
    intro window
    have shared := follows.shared window
    cases window <;> exact shared
  case within =>
    intro window
    cases window with
    | short => exact given .short short (by simp [Chronicle.enter, Chronicle.rates])
    | long => exact given .long long (by simp [Chronicle.enter, Chronicle.rates])

theorem follows_opened {weight : Window → K}
    (shared : ∀ window, 0 < weight window ∧ weight window < 1) (now : Int) :
    (withWeights (weight .short) (weight .long) now).Follows (.opened now) := by
  have zero : (Quantity.ofNat 0 : K) = 0 := Nat.cast_zero
  constructor
  case uncounted => rfl
  case lastTick => rfl
  case shared =>
    intro window
    cases window
    · exact shared .short
    · exact shared .long
  case within =>
    intro window
    have fresh : ((withWeights (weight .short) (weight .long) now).averaging window).rate = 0 := by
      cases window <;> exact zero
    rw [Average.Within, fresh]
    exact ⟨le_rfl, Chronicle.peak_nonneg _ window⟩

/-- One meter is where another one could be after some idle time. -/
structure Fades (m n : Meter K) : Prop where
  idle : n.uncounted = 0
  shared : ∀ window, (n.averaging window).Shared
  within : ∀ window, (n.averaging window).Within (m.average window)

end Meter

variable [IsStrictOrderedRing K]

namespace Average

variable {a : Average K} {bound : K}

/-- The end of an interval moves the rate towards the one counted in it, and not beyond. -/
theorem Within.fold (shared : a.Shared) (within : a.Within bound) {count : Nat}
    (counted : (count : K) / 5 ≤ bound) : (a.fold count).Within bound := by
  have seen : (0 : K) ≤ count / 5 := div_nonneg (Nat.cast_nonneg count) (by norm_num)
  have rest : 0 < 1 - a.weight := sub_pos.2 shared.2
  by_cases started : a.started = true
  · rw [Within, rate_fold started]
    constructor
    · exact add_nonneg (mul_nonneg rest.le within.1) (mul_nonneg shared.1.le seen)
    · calc (1 - a.weight) * a.rate + a.weight * (count / 5)
          ≤ (1 - a.weight) * bound + a.weight * bound :=
            add_le_add (mul_le_mul_of_nonneg_left within.2 rest.le)
              (mul_le_mul_of_nonneg_left counted shared.1.le)
        _ = bound := by ring
  · rw [Within, rate_fold_first started]
    exact ⟨seen, counted⟩

theorem Within.idle (shared : a.Shared) (within : a.Within bound) (n : Nat) :
    (a.idle n).Within bound := by
  have rest : 0 ≤ 1 - a.weight := (sub_pos.2 shared.2).le
  have part : 1 - a.weight ≤ 1 := sub_le_self 1 shared.1.le
  rw [Within, rate_idle]
  constructor
  · exact mul_nonneg within.1 (pow_nonneg rest _)
  · exact (mul_le_of_le_one_right within.1 (pow_le_one₀ rest part)).trans within.2

end Average

namespace Meter

variable {m : Meter K} {c : Chronicle K} {now : Int} {bound : Window → K}

/-- Catching up keeps rates within a bound that the open interval keeps, too. -/
theorem within_catchUp (shared : ∀ window, (m.averaging window).Shared)
    (within : ∀ window, (m.averaging window).Within (bound window))
    (counted : 0 < m.ended now → ∀ window, (m.uncounted : K) / 5 ≤ bound window) (window : Window) :
    ((m.catchUp now).averaging window).Within (bound window) := by
  cases some : m.ended now with
  | zero =>
    rw [catchUp_of_ended_eq_zero some]
    exact within window
  | succ n =>
    rw [averaging_catchUp some]
    have first := (within window).fold (shared window) (counted (by omega) window)
    exact first.idle ((shared window).fold _) n

theorem Follows.catchUp (follows : m.Follows c) (now : Int) :
    (m.catchUp now).Follows (c.close now) := by
  have ended : (now - c.since).toNat / interval = m.ended now := by
    rw [ended, follows.lastTick]
  unfold Chronicle.close
  rw [ended]
  cases some : m.ended now with
  | zero => rwa [catchUp_of_ended_eq_zero some]
  | succ n =>
    constructor
    case uncounted => rw [uncounted_catchUp_of_succ some]; rfl
    case lastTick => rw [catchUp_of_ended_eq_succ some, tick, follows.lastTick]
    case shared => exact shared_catchUp follows.shared now
    case within =>
      -- the chronicle has grown by the intervals that are over
      apply within_catchUp follows.shared
      · intro window
        apply (follows.within window).mono
        apply Chronicle.peak_mono
        intro x member
        simp only [Chronicle.rates, List.mem_append, List.map_append] at member ⊢
        tauto
      · intro _ window
        apply Chronicle.le_peak
        simp [Chronicle.rates, follows.uncounted]

theorem Follows.perform (follows : m.Follows c) (call : MeterCall K) :
    (m.perform call).Follows (c.enter call) := by
  cases call with
  | mark reads now =>
    have caught := follows.catchUp now
    constructor
    case uncounted =>
      rw [Chronicle.enter, Chronicle.readsOf_concat, ← caught.uncounted]
      rfl
    case lastTick => exact caught.lastTick
    case shared => exact caught.shared
    case within => exact caught.within
  | rate window now => exact follows.catchUp now
  | restore short long now => exact follows.restore short long now

theorem Follows.run (follows : m.Follows c) (calls : List (MeterCall K)) :
    (m.run calls).Follows (calls.foldl Chronicle.enter c) := by
  induction calls generalizing m c with
  | nil => exact follows
  | cons call rest ih => exact ih (follows.perform call)

/-- Looking at rates does not raise them, whatever the clock says. -/
theorem Fades.run {n : Meter K} (fades : Fades m n) (looks : List (Window × Int)) :
    Fades m (n.run (looks.map fun look => .rate look.1 look.2)) := by
  induction looks generalizing n with
  | nil => exact fades
  | cons look rest ih =>
    apply ih
    obtain ⟨window, now⟩ := look
    constructor
    case idle =>
      cases some : n.ended now with
      | zero =>
        change (n.catchUp now).uncounted = 0
        rw [catchUp_of_ended_eq_zero some]
        exact fades.idle
      | succ k => exact uncounted_catchUp_of_succ some
    case shared => exact shared_catchUp fades.shared now
    case within =>
      apply within_catchUp fades.shared fades.within
      intro _ window
      have bound := (fades.within window).1.trans (fades.within window).2
      simpa [fades.idle] using bound

/-- Whatever is asked of a meter, in whatever order and at whatever times, the rate of each window
is not negative and does not exceed the peak of what the meter was told: of the rates restored, where
negative and unusable ones count as zero, and of the rates counted in the intervals that have ended.
From one reading on that no marked read waits for, no later reading is higher. -/
theorem rates_bounded_and_fading {weight : Window → K}
    (shared : ∀ window, 0 < weight window ∧ weight window < 1) (start : Int)
    (calls : List (MeterCall K)) :
    let m := (withWeights (weight .short) (weight .long) start).run calls
    let c := calls.foldl Chronicle.enter (Chronicle.opened start)
    (∀ window, 0 ≤ m.average window ∧ m.average window ≤ c.peak window) ∧
    (∀ window now, 0 ≤ m.rate window now ∧ m.rate window now ≤ (c.close now).peak window) ∧
    ∀ window now, (c.close now).marks.sum = 0 → ∀ (looks : List (Window × Int)) (later : Int),
      ((m.perform (.rate window now)).run
          (looks.map fun look => .rate look.1 look.2)).rate window later ≤ m.rate window now := by
  intro m c
  have follows : m.Follows c := (follows_opened shared start).run calls
  refine ⟨?_, ?_, ?_⟩
  · intro window
    rw [average_eq]
    exact follows.within window
  · intro window now
    rw [rate, average_eq]
    exact (follows.catchUp now).within window
  · intro window now none looks later
    have caught := follows.catchUp now
    have fades : Fades (m.catchUp now) (m.perform (.rate window now)) := by
      constructor
      case idle =>
        have waiting := caught.uncounted
        rw [Chronicle.readsOf, none, Nat.zero_min] at waiting
        exact waiting
      case shared => exact caught.shared
      case within =>
        intro other
        rw [average_eq]
        exact ⟨(caught.within other).1, le_rfl⟩
    have lower := ((fades.run (looks ++ [(window, later)])).within window).2
    rw [← average_eq, List.map_append, run, List.foldl_append] at lower
    exact lower

/-- The short window tells the first interval's ten reads per second, then the eight restored, and
moves half the way to five; the long one is restored to less than nothing. From then on both fall,
though the clock goes back once. -/
theorem rates_told_within_peaks :
    let s : Int := 10 ^ 9
    let weight : Window → ℚ
      | .short => 1 / 2
      | .long => 1 / 4
    let calls : List (MeterCall ℚ) :=
      [.mark 50 (2 * s), .rate .short (11 * s), .restore (.finite 8) (.finite (-3)) (12 * s),
        .mark 25 (13 * s), .mark 0 (-s)]
    let m := (withWeights (weight .short) (weight .long) 0).run calls
    let c := calls.foldl Chronicle.enter (Chronicle.opened 0)
    let looks : List (Window × Int) := [(.long, 15 * s), (.short, 27 * s)]
    (∀ window, 0 < weight window ∧ weight window < 1) ∧
      (c.rates .short = [8, 10, 0] ∧ c.rates .long = [0, 10, 0]) ∧
      (m.rate .short (17 * s) = 13 / 2 ∧ 13 / 2 ≤ (c.close (17 * s)).peak .short) ∧
      (c.close (17 * s)).marks.sum = 0 ∧
      ((m.perform (.rate .short (17 * s))).run
          (looks.map fun look => .rate look.1 look.2)).rate .short (30 * s) ≤
        m.rate .short (17 * s) ∧
      ((m.perform (.rate .short (17 * s))).run
          (looks.map fun look => .rate look.1 look.2)).rate .short (30 * s) = 13 / 8 := by
  intro s weight calls m c looks
  have shared : ∀ window, 0 < weight window ∧ weight window < 1 := by
    intro window
    cases window <;> norm_num [weight]
  have none : (c.close (17 * s)).marks.sum = 0 := by decide +kernel
  have told : m.rate .short (17 * s) = 13 / 2 := by decide +kernel
  obtain ⟨_, bounded, fading⟩ := rates_bounded_and_fading shared 0 calls
  have within := (bounded .short (17 * s)).2
  refine ⟨shared, by decide +kernel, ⟨told, ?_⟩, none, ?_, by decide +kernel⟩
  · rwa [← told]
  · exact fading .short (17 * s) none looks (30 * s)

end Meter

end TieredCompaction
