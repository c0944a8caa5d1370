import TieredCompaction.Decimal.Shortest
import TieredCompaction.Proofs.Decimal.Reading
/-!
The digits of a number lie in its interval (`shortest_within`). The search accepts no other digits,
and it always finds some: a grid of 17 digits is finer than the interval is wide.
-/
namespace TieredCompaction.Decimal

open Binary64 (Canonical Within quartersBelow value)

/-- The decimal number that digits stand for. -/
def Digits.value (d : Digits) : ℚ :=
  d.digits * 10 ^ d.exponent

theorem zpow_eq_div {base : ℚ} (some : base ≠ 0) (e : Int) :
    base ^ e = base ^ e.toNat / base ^ (-e).toNat := by
  rw [← zpow_natCast, ← zpow_natCast, ← zpow_sub₀ some]
  congr 1
  omega

/-- Of two points around a number that are close enough to one another, one lies in its interval. -/
theorem within_or_within {m : Nat} {e : Int} {p q gap : ℚ} (canonical : Canonical m e)
    (some : 0 < m) (lower : p ≤ value m e) (upper : value m e < q) (step : q = p + gap)
    (fine : 10 ^ 16 * gap ≤ value m e) : Within m e p ∨ Within m e q := by
  have reach := Binary64.quartersBelow_le m e
  have whole : value m e = 4 * (m * 2 ^ (e - 2)) := by
    have shift := Binary64.value_shift m 2 e
    rw [← shift, value]
    push_cast
    ring
  have high : value (4 * m + 2) (e - 2) = 4 * (m * 2 ^ (e - 2)) + 2 * 2 ^ (e - 2) := by
    rw [value]
    push_cast
    ring
  have low : value (4 * m - quartersBelow m e) (e - 2) =
      4 * (m * 2 ^ (e - 2)) - quartersBelow m e * 2 ^ (e - 2) := by
    rw [value, Nat.cast_sub (by omega)]
    push_cast
    ring
  have unit : (0 : ℚ) < 2 ^ (e - 2) := zpow_pos two_pos (e - 2)
  have share : 0 ≤ (quartersBelow m e : ℚ) * 2 ^ (e - 2) := by positivity
  by_contra neither
  obtain ⟨notLower, notUpper⟩ := not_or.1 neither
  have least : p ≤ value (4 * m - quartersBelow m e) (e - 2) := by
    refine not_lt.1 fun inside => notLower ⟨inside.le, ?_, fun _ => ⟨inside, ?_⟩⟩ <;> linarith
  have most : value (4 * m + 2) (e - 2) ≤ q := by
    refine not_lt.1 fun inside => notUpper ⟨?_, inside.le, fun _ => ⟨?_, inside⟩⟩ <;> linarith
  -- the points are farther apart than the interval is wide, and so than the number has digits for
  by_cases power : m = 2 ^ 52
  · rw [whole, power] at fine lower
    rw [high, power] at most
    push_cast at *
    linarith
  · have both : quartersBelow m e = 2 := if_neg fun other => power other.1
    have short : (m : ℚ) * 2 ^ (e - 2) < 2 ^ 53 * 2 ^ (e - 2) :=
      mul_lt_mul_of_pos_right (by exact_mod_cast canonical.short) unit
    rw [low, both] at least
    push_cast at *
    linarith

namespace Span

variable {s : Span}

theorem le_point_iff (positive : 0 < s.den) (bound digits : Nat) (exponent : Int) :
    bound * Nat.pow 10 (-exponent).toNat ≤ digits * Nat.pow 10 exponent.toNat * s.den ↔
      (bound : ℚ) / s.den ≤ digits * 10 ^ exponent := by
  rw [zpow_eq_div (by norm_num), ← mul_div_assoc, div_le_div_iff₀ (by positivity) (by positivity)]
  exact_mod_cast Iff.rfl

theorem point_le_iff (positive : 0 < s.den) (bound digits : Nat) (exponent : Int) :
    digits * Nat.pow 10 exponent.toNat * s.den ≤ bound * Nat.pow 10 (-exponent).toNat ↔
      digits * 10 ^ exponent ≤ (bound : ℚ) / s.den := by
  rw [zpow_eq_div (by norm_num), ← mul_div_assoc, div_le_div_iff₀ (by positivity) (by positivity)]
  exact_mod_cast Iff.rfl

theorem holds_iff (positive : 0 < s.den) (digits : Nat) (exponent : Int) :
    s.holds digits exponent = true ↔
      (s.low : ℚ) / s.den ≤ digits * 10 ^ exponent ∧ digits * 10 ^ exponent ≤ (s.high : ℚ) / s.den ∧
        (s.closed = false →
          (s.low : ℚ) / s.den < digits * 10 ^ exponent ∧
            digits * 10 ^ exponent < (s.high : ℚ) / s.den) := by
  rw [← not_le, ← not_le, ← le_point_iff positive, ← le_point_iff positive,
    ← point_le_iff positive, ← point_le_iff positive, holds]
  cases s.closed with
  | true => simp
  | false =>
    simp
    omega

theorem den_ofBinary (m : Nat) (e : Int) : 0 < (ofBinary m e).den :=
  Nat.two_pow_pos _

theorem quarters_ofBinary (m n : Nat) (e : Int) :
    ((n * Nat.pow 2 (e - 2).toNat : Nat) : ℚ) / (ofBinary m e).den = value n (e - 2) := by
  rw [value, zpow_eq_div two_ne_zero, ← mul_div_assoc]
  simp only [ofBinary, Nat.cast_mul, Nat.pow_eq, Nat.cast_pow, Nat.cast_two]

theorem mid_ofBinary (m : Nat) (e : Int) :
    ((ofBinary m e).mid : ℚ) / (ofBinary m e).den = value m e := by
  have shift := Binary64.value_shift m 2 e
  rw [mul_comm] at shift
  exact (quarters_ofBinary m (4 * m) e).trans shift

/-- The points that the search accepts are those of the interval. -/
theorem holds_ofBinary_iff (m digits : Nat) (e exponent : Int) :
    (ofBinary m e).holds digits exponent = true ↔ Within m e (digits * 10 ^ exponent) := by
  have low : ((ofBinary m e).low : ℚ) / (ofBinary m e).den =
      value (4 * m - quartersBelow m e) (e - 2) :=
    quarters_ofBinary m (4 * m - quartersBelow m e) e
  have high : ((ofBinary m e).high : ℚ) / (ofBinary m e).den = value (4 * m + 2) (e - 2) :=
    quarters_ofBinary m (4 * m + 2) e
  have odd : (ofBinary m e).closed = false ↔ m % 2 = 1 := by
    simp [ofBinary]
  rw [holds_iff (den_ofBinary m e), low, high, odd]
  constructor
  · rintro ⟨least, most, inside⟩
    exact ⟨least, most, inside⟩
  · rintro ⟨least, most, inside⟩
    exact ⟨least, most, inside⟩

theorem floor_le (positive : 0 < s.den) (exponent : Int) :
    (s.floor exponent : ℚ) * 10 ^ exponent ≤ (s.mid : ℚ) / s.den := by
  rw [← point_le_iff positive, floor, Nat.mul_assoc]
  exact Nat.div_mul_le_self _ _

theorem lt_floor_add_one (positive : 0 < s.den) (exponent : Int) :
    (s.mid : ℚ) / s.den < (s.floor exponent + 1 : Nat) * 10 ^ exponent := by
  rw [← not_le, ← point_le_iff positive, not_le, floor, Nat.mul_assoc]
  exact (Nat.div_lt_iff_lt_mul (Nat.mul_pos (Nat.pow_pos (by norm_num)) positive)).1
    (Nat.lt_succ_self _)

theorem ten_zpow_magnitude_le (some : 0 < s.mid) (positive : 0 < s.den) :
    (10 : ℚ) ^ s.magnitude ≤ (s.mid : ℚ) / s.den := by
  rw [magnitude]
  split
  · next whole =>
    have quotient : 0 < s.mid / s.den := Nat.div_pos whole positive
    have length : 0 < (Nat.toDigits 10 (s.mid / s.den)).length :=
      Nat.length_toDigits_pos
    have exponent : ((Nat.toDigits 10 (s.mid / s.den)).length : Int) - 1 =
        ((Nat.toDigits 10 (s.mid / s.den)).length - 1 : Nat) := by omega
    rw [exponent, zpow_natCast]
    calc (10 : ℚ) ^ ((Nat.toDigits 10 (s.mid / s.den)).length - 1)
      _ ≤ (s.mid / s.den : Nat) := by exact_mod_cast ten_pow_length_le quotient
      _ ≤ (s.mid : ℚ) / s.den := Nat.cast_div_le
  · have less := (Nat.div_lt_iff_lt_mul some).1 (lt_ten_pow_length (s.den / s.mid))
    rw [zpow_neg, zpow_natCast, inv_eq_one_div, div_le_div_iff₀ (by positivity) (by positivity),
      one_mul, mul_comm]
    exact_mod_cast less.le

/-- Points are taken from the interval only. -/
theorem holds_of_onGrid {d : Digits} {exponent : Int} (taken : s.onGrid exponent = some d) :
    s.holds d.digits d.exponent = true := by
  simp only [onGrid] at taken
  split at taken
  · next lower upper =>
    cases taken
    show s.holds (if _ then _ else _) exponent = true
    split
    · exact lower
    · exact upper
  · next lower _ =>
    cases taken
    exact lower
  · next _ upper =>
    cases taken
    exact upper
  · cases taken

/-- If one of the value's neighbours lies in the interval, a point is taken. -/
theorem isSome_onGrid {exponent : Int} (near : s.holds (s.floor exponent) exponent = true ∨
    s.holds (s.floor exponent + 1) exponent = true) : (s.onGrid exponent).isSome = true := by
  simp only [onGrid]
  split
  · rfl
  · rfl
  · rfl
  · next lower upper =>
    rw [lower, upper] at near
    rcases near with absent | absent <;> cases absent

theorem holds_shortest (found : (s.onGrid (s.magnitude - 16)).isSome = true) :
    s.holds s.shortest.digits s.shortest.exponent = true := by
  have some : ((List.range 17).findSome? fun n : Nat => s.onGrid (s.magnitude - n)).isSome = true :=
    List.findSome?_isSome_iff.2 ⟨16, by decide, found⟩
  obtain ⟨d, first⟩ := Option.isSome_iff_exists.1 some
  obtain ⟨n, _, taken⟩ := List.exists_of_findSome?_eq_some first
  rw [shortest, first]
  exact holds_of_onGrid taken

/-- A grid of 17 digits is fine enough. -/
theorem isSome_onGrid_last {m : Nat} {e : Int} (canonical : Canonical m e) (some : 0 < m) :
    ((ofBinary m e).onGrid ((ofBinary m e).magnitude - 16)).isSome = true := by
  have positive := den_ofBinary m e
  have mid : 0 < (ofBinary m e).mid := by
    have scale : 0 < Nat.pow 2 (e - 2).toNat := Nat.two_pow_pos _
    exact Nat.mul_pos (by omega) scale
  have fine : (10 : ℚ) ^ 16 * 10 ^ ((ofBinary m e).magnitude - 16) ≤ value m e := by
    calc (10 : ℚ) ^ 16 * 10 ^ ((ofBinary m e).magnitude - 16)
      _ = 10 ^ (ofBinary m e).magnitude := by
        rw [← zpow_natCast, ← zpow_add₀ (by norm_num)]
        congr 1
        omega
      _ ≤ ((ofBinary m e).mid : ℚ) / (ofBinary m e).den := ten_zpow_magnitude_le mid positive
      _ = value m e := mid_ofBinary m e
  generalize (ofBinary m e).magnitude - 16 = exponent at *
  have lower := floor_le positive exponent
  have upper := lt_floor_add_one positive exponent
  have step : (((ofBinary m e).floor exponent + 1 : Nat) : ℚ) * 10 ^ exponent =
      (ofBinary m e).floor exponent * 10 ^ exponent + 10 ^ exponent := by
    push_cast
    ring
  rw [mid_ofBinary] at lower upper
  apply isSome_onGrid
  rw [holds_ofBinary_iff, holds_ofBinary_iff]
  exact within_or_within canonical some lower upper step fine

end Span

/-- Zeros at the end of the digits go into the exponent. -/
theorem Digits.value_reduced (d : Digits) (fuel : Nat) : (d.reduced fuel).value = d.value := by
  induction fuel generalizing d with
  | zero => rfl
  | succ fuel ih =>
    rw [reduced]
    split
    · next ends =>
      have tens : d.digits = d.digits / 10 * 10 := by omega
      rw [ih, value, value]
      conv_rhs => rw [tens]
      rw [zpow_add_one₀ (by norm_num)]
      push_cast
      ring
    · rfl

/-- The digits of a number lie in its interval. -/
theorem shortest_within {m : Nat} {e : Int} (canonical : Canonical m e) (some : 0 < m) :
    Within m e (shortest m e).value := by
  have found := Span.holds_shortest (Span.isSome_onGrid_last canonical some)
  rw [shortest, Digits.value_reduced]
  exact (Span.holds_ofBinary_iff m _ e _).1 found

end TieredCompaction.Decimal
