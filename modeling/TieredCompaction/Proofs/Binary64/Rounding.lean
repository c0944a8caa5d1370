import TieredCompaction.Decimal.Fixed
import Mathlib
/-!
How arithmetic on binary64 rounds. A mantissa is cut to 53 bits, rounded to the nearest multiple of
the last one, a tie to the even multiple; so rounding keeps the order of values.
-/
namespace TieredCompaction.Decimal

theorem even_of_halfway {num den n : Nat} (positive : 0 < den)
    (halfway : 2 * num = (2 * n + 1) * den) : roundDiv num den % 2 = 0 := by
  obtain ⟨rest, split⟩ : ∃ rest, num = n * den + rest :=
    ⟨num - n * den, by have := Nat.mul_comm n den; grind⟩
  have double : den = 2 * rest := by grind
  have small : rest < den := by omega
  have remains : num % den = rest := by
    rw [split, Nat.mul_comm, Nat.mul_add_mod, Nat.mod_eq_of_lt small]
  exact roundDiv_even (by omega)

/-- Of two quotients, the lesser one is rounded to the lesser number. -/
theorem roundDiv_mono {a b c d : Nat} (hb : 0 < b) (hd : 0 < d) (ordered : a * d ≤ c * b) :
    roundDiv a b ≤ roundDiv c d := by
  by_contra crossed
  have crossed : roundDiv c d + 1 ≤ roundDiv a b := by omega
  -- both quotients would lie halfway between the two results, and of these only one is even
  have above := (roundDiv_near a hb).2
  have below := (roundDiv_near c hd).1
  have lower : (2 * roundDiv c d + 1) * b ≤ 2 * a := by nlinarith
  have first : 2 * a = (2 * roundDiv c d + 1) * b := by
    refine Nat.le_antisymm ?_ lower
    exact Nat.le_of_mul_le_mul_right (by nlinarith) hd
  have second : 2 * c = (2 * roundDiv c d + 1) * d := by
    refine Nat.le_antisymm below ?_
    exact Nat.le_of_mul_le_mul_right (by nlinarith) hb
  have next : roundDiv a b = roundDiv c d + 1 := by
    refine Nat.le_antisymm (Nat.le_of_mul_le_mul_right ?_ hb) crossed
    linarith
  have even := even_of_halfway hb first
  have odd := even_of_halfway hd second
  omega

theorem roundDiv_mul (n : Nat) {den : Nat} (positive : 0 < den) : roundDiv (n * den) den = n := by
  simp [roundDiv, Nat.mul_div_cancel _ positive, positive]

end TieredCompaction.Decimal

namespace TieredCompaction.Binary64

open Float.Model (Format totalExponent UnpackedFloat)
open Float.Model.UnpackedFloat
  (Accuracy ExtendedMantissa Sign roundWithAccuracy shiftToTargetExponent)
open Decimal (roundDiv)

/-- The bits that a shift cuts off are kept as far as rounding needs them: whether they make up at
least half a unit, and whether they differ from nothing and from the half. -/
theorem shiftRight_exact (m shift : Nat) :
    (⟨m, false, false⟩ : ExtendedMantissa) >>> shift =
      ⟨m / 2 ^ shift, decide (2 ^ shift ≤ 2 * (m % 2 ^ shift)),
        decide (2 * (m % 2 ^ shift) % 2 ^ shift ≠ 0)⟩ := by
  induction shift with
  | zero => simp [HShiftRight.hShiftRight, Nat.repeat, Nat.mod_one]
  | succ shift ih =>
    have next : (⟨m, false, false⟩ : ExtendedMantissa) >>> (shift + 1) =
        ((⟨m, false, false⟩ : ExtendedMantissa) >>> shift).shiftRightOne := rfl
    have split : m % 2 ^ (shift + 1) = m % 2 ^ shift + 2 ^ shift * (m / 2 ^ shift % 2) := by
      rw [Nat.pow_succ, Nat.mod_mul]
    have small : m % 2 ^ shift < 2 ^ shift := Nat.mod_lt _ (Nat.two_pow_pos _)
    have twice : 2 * (m % 2 ^ shift + 2 ^ shift * (m / 2 ^ shift % 2)) % 2 ^ (shift + 1) =
        2 * (m % 2 ^ shift) := by
      rw [Nat.pow_succ', Nat.mul_mod_mul_left, Nat.add_mul_mod_self_left, Nat.mod_eq_of_lt small]
    rw [next, ih, split, ExtendedMantissa.shiftRightOne, twice]
    congr 1
    · rw [Nat.div_div_eq_div_mul, Nat.pow_succ]
    · rw [Nat.pow_succ]
      rcases Nat.mod_two_eq_zero_or_one (m / 2 ^ shift) with bit | bit <;> rw [bit]
      · simp only [Nat.mul_zero, Nat.add_zero, bne_self_eq_false, Bool.false_eq, decide_eq_false_iff_not]
        omega
      · simp [Nat.mul_add, Nat.mul_comm]
    · rw [Bool.eq_iff_iff]
      simp only [Bool.or_eq_true, decide_eq_true_eq]
      by_cases none : m % 2 ^ shift = 0
      · simp [none]
      · have some : 2 * (m % 2 ^ shift) < 2 ^ shift →
            2 * (m % 2 ^ shift) % 2 ^ shift = 2 * (m % 2 ^ shift) := Nat.mod_eq_of_lt
        omega

theorem roundedMantissa_shiftRight (m shift : Nat) :
    ((⟨m, false, false⟩ : ExtendedMantissa) >>> shift).roundedMantissa = roundDiv m (2 ^ shift) := by
  have small : m % 2 ^ shift < 2 ^ shift := Nat.mod_lt _ (Nat.two_pow_pos _)
  rw [shiftRight_exact, ExtendedMantissa.roundedMantissa, roundDiv]
  by_cases half : 2 ^ shift ≤ 2 * (m % 2 ^ shift)
  · have rest : 2 * (m % 2 ^ shift) % 2 ^ shift = 2 * (m % 2 ^ shift) - 2 ^ shift := by
      rw [Nat.mod_eq_sub_mod half, Nat.mod_eq_of_lt (by omega)]
    by_cases tie : 2 * (m % 2 ^ shift) = 2 ^ shift
    · rcases Nat.mod_two_eq_zero_or_one (m / 2 ^ shift) with even | odd
      · simp [tie, even, ExtendedMantissa.accuracy, Accuracy.roundToNearestEven]
      · simp [tie, odd, ExtendedMantissa.accuracy, Accuracy.roundToNearestEven]
    · have more : 2 * (m % 2 ^ shift) - 2 ^ shift ≠ 0 := by omega
      simp [half, rest, more, tie, ExtendedMantissa.accuracy, Accuracy.roundToNearestEven]
  · have rest : 2 * (m % 2 ^ shift) % 2 ^ shift = 2 * (m % 2 ^ shift) :=
      Nat.mod_eq_of_lt (by omega)
    by_cases none : m % 2 ^ shift = 0
    · simp [none, ExtendedMantissa.accuracy, Accuracy.roundToNearestEven]
    · simp [half, rest, none, ExtendedMantissa.accuracy, Accuracy.roundToNearestEven]

def value (m : Nat) (e : Int) : ℚ :=
  m * 2 ^ e

/-- The exponent of the last bit that a number keeps. -/
def lastBit (m : Nat) (e : Int) : Int :=
  max (m.log2 + 1 + e - 53) (-1074)

/-- A number in units of its last bit, rounded. -/
def units (m : Nat) (e : Int) : Nat :=
  roundDiv m (2 ^ (lastBit m e - e).toNat)

def rounded (m : Nat) (e : Int) : ℚ :=
  value (units m e) (lastBit m e)

/-- Mantissas have 53 bits, unless the exponent is the least one. -/
structure Canonical (m : Nat) (e : Int) : Prop where
  short : m < 2 ^ 53
  least : -1074 ≤ e
  full : 2 ^ 52 ≤ m ∨ e = -1074

theorem value_le_value {m n : Nat} (e : Int) (ordered : m ≤ n) : value m e ≤ value n e := by
  have counts : (m : ℚ) ≤ n := Nat.cast_le.2 ordered
  exact mul_le_mul_of_nonneg_right counts (zpow_nonneg two_pos.le e)

theorem value_mul (m n : Nat) (d e : Int) : value (m * n) (d + e) = value m d * value n e := by
  rw [value, value, value, zpow_add₀ two_ne_zero, Nat.cast_mul]
  exact mul_mul_mul_comm _ _ _ _

theorem value_nonneg (m : Nat) (e : Int) : 0 ≤ value m e :=
  mul_nonneg (Nat.cast_nonneg m) (zpow_nonneg two_pos.le e)

theorem value_pos {m : Nat} (positive : 0 < m) (e : Int) : 0 < value m e :=
  mul_pos (Nat.cast_pos.2 positive) (zpow_pos two_pos e)

theorem value_lt_value {m n : Nat} (e : Int) (ordered : m < n) : value m e < value n e := by
  have counts : (m : ℚ) < n := Nat.cast_lt.2 ordered
  exact mul_lt_mul_of_pos_right counts (zpow_pos two_pos e)

/-- The greatest mantissa of an exponent does not exceed the least one of a greater exponent. -/
theorem value_top_le_bottom {d e : Int} (less : d < e) : value (2 ^ 53) d ≤ value (2 ^ 52) e := by
  rw [value, value, Nat.cast_pow, Nat.cast_pow, Nat.cast_two, ← zpow_natCast, ← zpow_natCast,
    ← zpow_add₀ two_ne_zero, ← zpow_add₀ two_ne_zero]
  exact zpow_le_zpow_right₀ one_le_two (by omega)

/-- A mantissa can be written with a lesser exponent. -/
theorem value_shift (m shift : Nat) (e : Int) : value (m * 2 ^ shift) (e - shift) = value m e := by
  rw [value, value, Nat.cast_mul, Nat.cast_pow, Nat.cast_two, mul_assoc, ← zpow_natCast,
    ← zpow_add₀ two_ne_zero]
  congr 2
  omega

section Bounds

variable {m : Nat} {e : Int}

theorem lt_of_bits (fits : e ≤ lastBit m e) : m < 2 ^ 53 * 2 ^ (lastBit m e - e).toNat := by
  have top : m < 2 ^ (m.log2 + 1) := Nat.lt_log2_self
  have wide : m.log2 + 1 ≤ 53 + (lastBit m e - e).toNat := by
    rw [lastBit] at fits ⊢
    omega
  rw [← Nat.pow_add]
  exact top.trans_le (Nat.pow_le_pow_right two_pos wide)

private theorem bits_le (positive : 0 < m) (normal : lastBit m e ≠ -1074) (fits : e ≤ lastBit m e) :
    2 ^ 52 * 2 ^ (lastBit m e - e).toNat ≤ m := by
  have bottom : 2 ^ m.log2 ≤ m := Nat.log2_self_le positive.ne'
  have wide : 52 + (lastBit m e - e).toNat = m.log2 := by
    rw [lastBit] at normal fits ⊢
    omega
  rw [← Nat.pow_add, wide]
  exact bottom

theorem units_le (fits : e ≤ lastBit m e) : units m e ≤ 2 ^ 53 := by
  have unit := Nat.two_pow_pos (lastBit m e - e).toNat
  rw [← Decimal.roundDiv_mul (2 ^ 53) unit]
  exact Decimal.roundDiv_mono unit unit (Nat.mul_le_mul_right _ (lt_of_bits fits).le)

theorem le_units (positive : 0 < m) (normal : lastBit m e ≠ -1074) (fits : e ≤ lastBit m e) :
    2 ^ 52 ≤ units m e := by
  have unit := Nat.two_pow_pos (lastBit m e - e).toNat
  rw [← Decimal.roundDiv_mul (2 ^ 52) unit]
  exact Decimal.roundDiv_mono unit unit (Nat.mul_le_mul_right _ (bits_le positive normal fits))

theorem value_lt_top (fits : e ≤ lastBit m e) : value m e < value (2 ^ 53) (lastBit m e) := by
  have shift : lastBit m e - (lastBit m e - e).toNat = e := by omega
  rw [← value_shift (2 ^ 53) (lastBit m e - e).toNat, shift]
  exact value_lt_value e (lt_of_bits fits)

theorem bottom_le_value (positive : 0 < m) (normal : lastBit m e ≠ -1074) (fits : e ≤ lastBit m e) :
    value (2 ^ 52) (lastBit m e) ≤ value m e := by
  have shift : lastBit m e - (lastBit m e - e).toNat = e := by omega
  rw [← value_shift (2 ^ 52) (lastBit m e - e).toNat, shift]
  exact value_le_value e (bits_le positive normal fits)

end Bounds

/-- The value of a number in units of any exponent that is not below its own. -/
theorem value_eq_units {m : Nat} {e last : Int} (fits : e ≤ last) :
    value m e = m / 2 ^ (last - e).toNat * 2 ^ last := by
  have shift : ((last - e).toNat : Int) = last - e := Int.toNat_of_nonneg (by omega)
  rw [value, div_mul_eq_mul_div, eq_div_iff (by positivity), mul_assoc, ← zpow_natCast,
    ← zpow_add₀ two_ne_zero, shift]
  congr 2
  omega

/-- Rounding keeps the order of values. -/
theorem rounded_mono {m n : Nat} {d e : Int} (hm : 0 < m) (hn : 0 < n) (md : d ≤ lastBit m d)
    (ne : e ≤ lastBit n e) (ordered : value m d ≤ value n e) : rounded m d ≤ rounded n e := by
  rcases lt_trichotomy (lastBit m d) (lastBit n e) with less | same | more
  · -- a number of fewer bits than the other is rounded to the other's least power of two at most
    have most : rounded m d ≤ value (2 ^ 53) (lastBit m d) := value_le_value _ (units_le md)
    have least : value (2 ^ 52) (lastBit n e) ≤ rounded n e := by
      refine value_le_value _ (le_units hn ?_ ne)
      rw [lastBit] at less
      omega
    exact most.trans ((value_top_le_bottom less).trans least)
  · rw [rounded, rounded, same]
    refine value_le_value _ (Decimal.roundDiv_mono (Nat.two_pow_pos _) (Nat.two_pow_pos _) ?_)
    rw [value_eq_units md, value_eq_units ne, same] at ordered
    have quotients := le_of_mul_le_mul_right ordered (zpow_pos two_pos _)
    rw [div_le_div_iff₀ (by positivity) (by positivity)] at quotients
    rw [same]
    exact_mod_cast quotients
  · exfalso
    have normal : lastBit m d ≠ -1074 := by
      have floor : -1074 ≤ lastBit n e := le_max_right _ _
      omega
    have least := bottom_le_value hm normal md
    have most := value_lt_top ne
    exact absurd ordered (not_le.2 (most.trans_le ((value_top_le_bottom more).trans least)))

/-- Numbers that are kept as they are. -/
theorem Canonical.lastBit_eq {m : Nat} {e : Int} (canonical : Canonical m e) (positive : 0 < m) :
    lastBit m e = e := by
  have bits : m.log2 < 53 := (Nat.log2_lt positive.ne').2 canonical.short
  have least := canonical.least
  rw [lastBit]
  rcases canonical.full with full | rfl
  · have bits : 52 ≤ m.log2 := (Nat.le_log2 positive.ne').2 full
    omega
  · omega

theorem Canonical.rounded_eq {m : Nat} {e : Int} (canonical : Canonical m e) (positive : 0 < m) :
    rounded m e = value m e := by
  rw [rounded, units, canonical.lastBit_eq positive, Int.sub_self, Int.toNat_zero, Nat.pow_zero]
  rw [← Nat.mul_one m, Decimal.roundDiv_mul m one_pos, Nat.mul_one]

/-- A product of kept numbers has no bits to spare. -/
theorem Canonical.mul_fits {m n : Nat} {d e : Int} (first : Canonical m d) (second : Canonical n e)
    (hm : 0 < m) (hn : 0 < n) : d + e ≤ lastBit (m * n) (d + e) := by
  have product : m * n ≠ 0 := (Nat.mul_pos hm hn).ne'
  have bound (full : 2 ^ 52 ≤ m ∨ 2 ^ 52 ≤ n) : 52 ≤ (m * n).log2 := by
    refine (Nat.le_log2 product).2 ?_
    rcases full with full | full
    · exact full.trans (Nat.le_mul_of_pos_right m hn)
    · exact full.trans (Nat.le_mul_of_pos_left n hm)
  rw [lastBit]
  rcases first.full with full | rfl
  · have wide := bound (.inl full)
    omega
  · rcases second.full with full | rfl
    · have wide := bound (.inr full)
      omega
    · omega

theorem targetExponent_eq (m : Nat) (e : Int) :
    Format.binary64.targetExponent (totalExponent m e) = lastBit m e := by
  rw [Format.targetExponent, totalExponent, lastBit]
  rfl

theorem shiftToTargetExponent_eq (m : Nat) (e : Int) :
    shiftToTargetExponent .binary64 m e .exact =
      ((⟨m, false, false⟩ : ExtendedMantissa) >>> (lastBit m e - e).toNat,
        e + (lastBit m e - e).toNat) := by
  rw [shiftToTargetExponent, targetExponent_eq]
  rfl

/-- Rounding ends with a second shift, which takes effect only if rounding gave a 54th bit. -/
theorem roundWithAccuracy_eq (sign : Sign) {m : Nat} {e : Int} (fits : e ≤ lastBit m e) :
    roundWithAccuracy .binary64 sign m e .exact =
      if pos : units m e / 2 ^ (lastBit (units m e) (lastBit m e) - lastBit m e).toNat = 0 then
        .zero sign
      else .finite sign _
        (lastBit m e + (lastBit (units m e) (lastBit m e) - lastBit m e).toNat)
        (Nat.pos_of_ne_zero pos) := by
  have shift : e + (lastBit m e - e).toNat = lastBit m e := by omega
  simp only [roundWithAccuracy, shiftToTargetExponent_eq, roundedMantissa_shiftRight, shift]
  simp only [shiftRight_exact]
  rfl

theorem roundWithAccuracy_zero (sign : Sign) {m : Nat} {e : Int} (fits : e ≤ lastBit m e)
    (none : units m e = 0) : roundWithAccuracy .binary64 sign m e .exact = .zero sign := by
  rw [roundWithAccuracy_eq sign fits, dif_pos (by rw [none, Nat.zero_div])]

theorem roundWithAccuracy_finite (sign : Sign) {m : Nat} {e : Int} (positive : 0 < m)
    (fits : e ≤ lastBit m e) (some : units m e ≠ 0) :
    ∃ n d pos, roundWithAccuracy .binary64 sign m e .exact = .finite sign n d pos ∧
      Canonical n d ∧ value n d = rounded m e ∧ d ≤ lastBit m e + 1 := by
  have least : -1074 ≤ lastBit m e := le_max_right _ _
  rcases (units_le fits).lt_or_eq with short | carried
  · have canonical : Canonical (units m e) (lastBit m e) := by
      refine ⟨short, least, ?_⟩
      by_cases normal : lastBit m e = -1074
      · exact .inr normal
      · exact .inl (le_units positive normal fits)
    have still := canonical.lastBit_eq (Nat.pos_of_ne_zero some)
    refine ⟨units m e, lastBit m e, Nat.pos_of_ne_zero some, ?_, canonical, rfl, by omega⟩
    rw [roundWithAccuracy_eq sign fits]
    simp [still, some]
  · have next : lastBit (2 ^ 53) (lastBit m e) = lastBit m e + 1 := by
      rw [lastBit, Nat.log2_two_pow]
      omega
    have canonical : Canonical (2 ^ 52) (lastBit m e + 1) :=
      ⟨by norm_num, by omega, .inl le_rfl⟩
    have one : (lastBit (2 ^ 53) (lastBit m e) - lastBit m e).toNat = 1 := by omega
    refine ⟨2 ^ 52, lastBit m e + 1, by positivity, ?_, canonical, ?_, le_rfl⟩
    · rw [roundWithAccuracy_eq sign fits]
      simp only [carried, one]
      rw [dif_neg (by norm_num)]
      rfl
    · rw [rounded, carried]
      have shift := value_shift (2 ^ 52) 1 (lastBit m e + 1)
      simpa using shift.symm

theorem log2_shift {m : Nat} (positive : 0 < m) (shift : Nat) :
    (m * 2 ^ shift).log2 = m.log2 + shift := by
  have some : m * 2 ^ shift ≠ 0 := (Nat.mul_pos positive (Nat.two_pow_pos shift)).ne'
  refine (Nat.log2_eq_iff some).2 ⟨?_, ?_⟩
  · rw [Nat.pow_add]
    exact Nat.mul_le_mul_right _ (Nat.log2_self_le positive.ne')
  · rw [Nat.add_right_comm, Nat.pow_add]
    exact Nat.mul_lt_mul_of_pos_right Nat.lt_log2_self (Nat.two_pow_pos shift)

theorem lastBit_shift {m : Nat} (positive : 0 < m) (shift : Nat) (e : Int) :
    lastBit (m * 2 ^ shift) (e - shift) = lastBit m e := by
  rw [lastBit, lastBit, log2_shift positive, Nat.cast_add]
  congr 1
  omega

/-- The value of a count after rounding. -/
def roundedCount (n : Nat) : ℚ :=
  rounded (n * 2 ^ (-lastBit n 0).toNat) (0 - (-lastBit n 0).toNat)

private theorem count_fits {n : Nat} (positive : 0 < n) :
    (0 : Int) - (-lastBit n 0).toNat ≤
      lastBit (n * 2 ^ (-lastBit n 0).toNat) (0 - (-lastBit n 0).toNat) := by
  rw [lastBit_shift positive]
  omega

theorem roundedCount_mono {m n : Nat} (positive : 0 < m) (ordered : m ≤ n) :
    roundedCount m ≤ roundedCount n := by
  have other : 0 < n := positive.trans_le ordered
  refine rounded_mono (Nat.mul_pos positive (Nat.two_pow_pos _))
    (Nat.mul_pos other (Nat.two_pow_pos _)) (count_fits positive) (count_fits other) ?_
  rw [value_shift, value_shift]
  exact value_le_value 0 ordered

/-- A count is converted to the number nearest to it. -/
theorem ofNat_finite {n : Nat} (positive : 0 < n) :
    ∃ m e pos, UnpackedFloat.ofNat .binary64 n = .finite .positive m e pos ∧
      Canonical m e ∧ value m e = roundedCount n ∧ e ≤ lastBit n 0 + 1 := by
  have sign : compare (n : Int) 0 = .gt := by
    rw [compare_gt_iff_gt]
    omega
  have converted : UnpackedFloat.ofNat .binary64 n =
      roundWithAccuracy .binary64 .positive (n * 2 ^ (-lastBit n 0).toNat)
        (0 - (-lastBit n 0).toNat) .exact := by
    rw [UnpackedFloat.ofNat, UnpackedFloat.ofInt, UnpackedFloat.normalize, sign]
    simp only [UnpackedFloat.round, targetExponent_eq, UnpackedFloat.decreaseExponent, Int.toNat_natCast,
      Nat.shiftLeft_eq, Int.zero_sub]
  have some : units (n * 2 ^ (-lastBit n 0).toNat) (0 - (-lastBit n 0).toNat) ≠ 0 := by
    have normal : lastBit (n * 2 ^ (-lastBit n 0).toNat) (0 - (-lastBit n 0).toNat) ≠ -1074 := by
      rw [lastBit_shift positive, lastBit]
      omega
    have full := le_units (Nat.mul_pos positive (Nat.two_pow_pos _)) normal (count_fits positive)
    omega
  obtain ⟨m, e, pos, result, canonical, nearest, last⟩ := roundWithAccuracy_finite .positive
    (Nat.mul_pos positive (Nat.two_pow_pos _)) (count_fits positive) some
  rw [lastBit_shift positive] at last
  exact ⟨m, e, pos, converted.trans result, canonical, nearest, last⟩

end TieredCompaction.Binary64
