import Mathlib.Logic.Function.Iterate
import Mathlib.Tactic.Ring
import TieredCompaction.Meter
import TieredCompaction.Proofs.Exact
/-!
Catching up. A meter folds in all intervals that have ended at once. In exact arithmetic that is
what folding them in one by one gives (`catchUp_eq_iterate`), so that it does not matter whether the
meter was looked at in between (`catchUp_catchUp`).
-/
namespace TieredCompaction

namespace Average

variable {R : Type} [Quantity R]

theorem started_fold (a : Average R) (count : Nat) : (a.fold count).started = true := by
  rw [fold]
  split
  · next started => exact started
  · rfl

theorem weight_fold (a : Average R) (count : Nat) : (a.fold count).weight = a.weight := by
  rw [fold]
  split <;> rfl

theorem weight_idle (a : Average R) (intervals : Nat) : (a.idle intervals).weight = a.weight := by
  rw [idle]
  split <;> rfl

theorem weight_foldl_fold (a : Average R) (counts : List Nat) :
    (counts.foldl fold a).weight = a.weight := by
  induction counts generalizing a with
  | nil => rfl
  | cons count rest ih => exact (ih _).trans (a.weight_fold count)

end Average

namespace Meter

variable {R : Type} [Quantity R] {m : Meter R} {now : Int}

/-- How many intervals have ended by `now`. -/
def ended (m : Meter R) (now : Int) : Nat :=
  (now - m.lastTick).toNat / interval

/-- The end of one interval. -/
def tick (m : Meter R) : Meter R :=
  { m with
    short := m.short.fold m.uncounted
    long := m.long.fold m.uncounted
    uncounted := 0
    lastTick := m.lastTick + interval }

theorem catchUp_of_ended_eq_zero (none : m.ended now = 0) : m.catchUp now = m := by
  rw [ended] at none
  simp only [catchUp, none, if_true]

theorem catchUp_of_lt (unended : now < m.lastTick + interval) : m.catchUp now = m := by
  apply catchUp_of_ended_eq_zero
  apply Nat.div_eq_of_lt
  have positive : 0 < interval := by decide
  omega

/-- The first interval that has ended is folded in with the reads counted, and all others as idle
ones. -/
theorem catchUp_of_ended_eq_succ {n : Nat} (some : m.ended now = n + 1) :
    m.catchUp now = { m.tick with
      short := m.tick.short.idle n
      long := m.tick.long.idle n
      lastTick := m.tick.lastTick + n * interval } := by
  have instant : now - ((now - m.lastTick).toNat % interval : Nat) =
      m.lastTick + interval + n * interval := by
    simp only [ended, interval] at some ⊢
    omega
  rw [ended] at some
  simp only [catchUp, some, Nat.add_one_ne_zero, if_false, Nat.add_sub_cancel, instant, tick]

theorem lastTick_catchUp (m : Meter R) (now : Int) :
    (m.catchUp now).lastTick = m.lastTick + m.ended now * interval := by
  cases some : m.ended now with
  | zero => simp [catchUp_of_ended_eq_zero some]
  | succ n =>
    rw [catchUp_of_ended_eq_succ some]
    simp only [tick]
    push_cast
    ring

/-- The intervals that have ended are counted once each, whenever one looks. -/
theorem ended_catchUp {before : Int} (m : Meter R) (order : before ≤ now) :
    m.ended before + (m.catchUp before).ended now = m.ended now := by
  have last := m.lastTick_catchUp before
  simp only [ended, interval] at last ⊢
  omega

/-- A meter that has been looked at has nothing more to fold in at the same instant. -/
theorem catchUp_idem (m : Meter R) (now : Int) : (m.catchUp now).catchUp now = m.catchUp now := by
  apply catchUp_of_ended_eq_zero
  have count := m.ended_catchUp (Int.le_refl now)
  omega

/-- Restoring leaves nothing of what came before. -/
theorem restore_catchUp (m : Meter R) (short long : GivenRate R) (before now : Int) :
    (m.catchUp before).restore short long now = m.restore short long now := by
  cases some : m.ended before with
  | zero => rw [catchUp_of_ended_eq_zero some]
  | succ n =>
    rw [catchUp_of_ended_eq_succ some]
    simp only [restore, Average.restore, tick, Average.weight_idle, Average.weight_fold]

end Meter

variable {K : Type} [Field K] [LinearOrder K] [Gauge K]

theorem powerOnto_eq (product base : K) {exponent rounds : Nat} (small : exponent < 2 ^ rounds) :
    powerOnto product base exponent rounds = product * base ^ exponent := by
  induction rounds generalizing product base exponent with
  | zero =>
    obtain rfl : exponent = 0 := by simpa using small
    simp [powerOnto]
  | succ rounds ih =>
    have half : exponent / 2 < 2 ^ rounds := by
      rw [pow_succ] at small
      omega
    have split : base ^ exponent = base ^ (exponent % 2) * (base * base) ^ (exponent / 2) := by
      rw [← pow_two, ← pow_mul, ← pow_add, Nat.mod_add_div]
    have taken : (if exponent % 2 = 1 then product * base else product) =
        product * base ^ (exponent % 2) := by
      rcases Nat.mod_two_eq_zero_or_one exponent with even | odd
      · simp [even]
      · simp [odd]
    rw [powerOnto]
    simp only [taken]
    split
    · next done => rw [split, done, pow_zero, mul_one]
    · rw [ih _ _ half, split, mul_assoc]

theorem power_eq (base : K) {exponent : Nat} (small : exponent < 2 ^ 31) :
    power base exponent = base ^ exponent := by
  have one : (Quantity.ofNat 1 : K) = 1 := Nat.cast_one
  rw [power, powerOnto_eq _ _ small, one, one_mul]

namespace Average

variable {a : Average K}

theorem fold_zero (started : a.started = true) :
    a.fold 0 = { a with rate := a.rate * (1 - a.weight) } := by
  have none : (Quantity.ofNat 0 : K) = 0 := Nat.cast_zero
  rw [fold, if_pos started, none]
  congr 1
  rw [zero_div]
  ring

theorem iterate_fold_zero (started : a.started = true) (n : Nat) :
    (fold · 0)^[n] a = { a with rate := a.rate * (1 - a.weight) ^ n } := by
  induction n with
  | zero => simp
  | succ n ih =>
    have still : Average.started { a with rate := a.rate * (1 - a.weight) ^ n } = true := started
    rw [Function.iterate_succ_apply', ih, fold_zero still]
    simp only [pow_succ, mul_assoc]

/-- Idle intervals at once are as many of them one by one. -/
theorem idle_eq_iterate (started : a.started = true) {n : Nat} (few : n < 2 ^ 31) :
    a.idle n = (fold · 0)^[n] a := by
  have least : min n (Nat.pow 2 31 - 1) = n := by
    have same : Nat.pow 2 31 = 2 ^ 31 := rfl
    omega
  have one : (Quantity.ofNat 1 : K) = 1 := Nat.cast_one
  rw [iterate_fold_zero started, idle, least, power_eq _ few, one]
  split
  · next none => simp [none]
  · rfl

end Average

namespace Meter

variable {m : Meter K} {now : Int}

theorem iterate_tick (none : m.uncounted = 0) (n : Nat) :
    tick^[n] m = { m with
      short := (Average.fold · 0)^[n] m.short
      long := (Average.fold · 0)^[n] m.long
      lastTick := m.lastTick + n * interval } := by
  induction n with
  | zero => simp
  | succ n ih =>
    rw [Function.iterate_succ_apply', ih]
    simp only [tick, none, Function.iterate_succ_apply', Nat.cast_succ, add_one_mul, add_assoc]

/-- Folding in all intervals at once is folding them in one by one. -/
theorem catchUp_eq_iterate (few : m.ended now ≤ 2 ^ 31) :
    m.catchUp now = tick^[m.ended now] m := by
  cases some : m.ended now with
  | zero => exact catchUp_of_ended_eq_zero some
  | succ n =>
    have fewer : n < 2 ^ 31 := by omega
    have short : m.tick.short.started = true := m.short.started_fold m.uncounted
    have long : m.tick.long.started = true := m.long.started_fold m.uncounted
    rw [catchUp_of_ended_eq_succ some, Function.iterate_succ_apply, iterate_tick rfl,
      ← Average.idle_eq_iterate short fewer, ← Average.idle_eq_iterate long fewer]

/-- What the end of an interval keeps is kept by catching up. -/
theorem catchUp_keeps {P : Meter K → Prop} (keeps : ∀ m, P m → P m.tick)
    (few : m.ended now ≤ 2 ^ 31) (initial : P m) : P (m.catchUp now) := by
  rw [catchUp_eq_iterate few]
  exact Function.Iterate.rec P initial keeps (m.ended now)

/-- It does not matter whether a meter was looked at before. -/
theorem catchUp_catchUp {before : Int} (order : before ≤ now) (few : m.ended now ≤ 2 ^ 31) :
    (m.catchUp before).catchUp now = m.catchUp now := by
  have count := m.ended_catchUp order
  have first : m.catchUp before = tick^[m.ended before] m := catchUp_eq_iterate (by omega)
  rw [catchUp_eq_iterate (m := m.catchUp before) (by omega), catchUp_eq_iterate few, ← count,
    add_comm, Function.iterate_add_apply, ← first]

end Meter

end TieredCompaction
