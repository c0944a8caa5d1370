import TieredCompaction.Proofs.Binary64.Comparison
/-!
What is rounded to a given number. Around each positive number lies an interval of values, up to
halfway to its neighbours; a quotient of integers within it is rounded to the number, whatever the
way it is divided (`Within.round_eq`). The ends belong to the interval of the number with the even
mantissa.
-/
namespace TieredCompaction.Decimal

/-- What lies within half a unit of a number, and less than half a unit of an odd one, is rounded to
it. -/
theorem roundDiv_eq {num den n : Nat} (positive : 0 < den) (below : 2 * (n * den) ≤ 2 * num + den)
    (above : 2 * num ≤ (2 * n + 1) * den)
    (inside : n % 2 = 1 → 2 * (n * den) < 2 * num + den ∧ 2 * num < (2 * n + 1) * den) :
    roundDiv num den = n := by
  obtain ⟨least, most⟩ := roundDiv_near num positive
  -- another multiple is a whole unit off, which only a tie allows, and ties go to even ones
  rcases lt_trichotomy (roundDiv num den) n with less | same | more
  · exfalso
    have next : (roundDiv num den + 1) * den ≤ n * den := Nat.mul_le_mul_right _ less
    have tie : 2 * num = (2 * roundDiv num den + 1) * den := by linarith
    have even := even_of_halfway positive tie
    have neighbour : n = roundDiv num den + 1 :=
      Nat.le_antisymm (Nat.le_of_mul_le_mul_right (by linarith) positive) less
    have strict := (inside (by omega)).1
    linarith
  · exact same
  · exfalso
    have next : (n + 1) * den ≤ roundDiv num den * den := Nat.mul_le_mul_right _ more
    have tie : 2 * num = (2 * n + 1) * den := by linarith
    have even := even_of_halfway positive tie
    have neighbour : roundDiv num den = n + 1 :=
      Nat.le_antisymm (Nat.le_of_mul_le_mul_right (by linarith) positive) more
    have strict := (inside (by omega)).2
    linarith

end TieredCompaction.Decimal

namespace TieredCompaction.Binary64

open Float.Model (Format totalExponent UnpackedFloat)
open Float.Model.UnpackedFloat
  (Accuracy ExtendedMantissa Sign accuracyOfFraction roundWithAccuracy shiftToExponent
    shiftToTargetExponent)
open Decimal (roundDiv)

/-- What a division leaves over, as quarters of a unit. -/
def quarters : Accuracy → Nat
  | .exact => 0
  | .inexact .lt => 1
  | .inexact .eq => 2
  | .inexact .gt => 3

theorem quarters_lt (accuracy : Accuracy) : quarters accuracy < 4 := by
  cases accuracy with
  | exact => decide
  | inexact half => cases half <;> decide

theorem compare_quarters (rest : Nat) {den : Nat} (positive : 0 < den) :
    compare (quarters (accuracyOfFraction rest den)) 2 = compare (2 * rest) den := by
  rw [accuracyOfFraction]
  split
  · next none =>
    rw [none, Nat.compare_eq_lt.2 positive]
    rfl
  · cases compare (2 * rest) den <;> rfl

theorem quarters_eq_zero (rest den : Nat) :
    quarters (accuracyOfFraction rest den) = 0 ↔ rest = 0 := by
  rw [accuracyOfFraction]
  split
  · next none => exact iff_of_true rfl none
  · next some =>
    refine iff_of_false ?_ some
    cases compare (2 * rest) den <;> decide

/-- A quotient and its whole part with quarters lie on the same side of each half of a unit. -/
theorem quarters_le_iff (num k : Nat) {den : Nat} (positive : 0 < den) :
    (4 * (num / den) + quarters (accuracyOfFraction (num % den) den) ≤ 2 * k ↔
      2 * num ≤ k * den) ∧
    (2 * k ≤ 4 * (num / den) + quarters (accuracyOfFraction (num % den) den) ↔
      k * den ≤ 2 * num) := by
  have split := Nat.div_add_mod num den
  have small := Nat.mod_lt num positive
  have few := quarters_lt (accuracyOfFraction (num % den) den)
  have none := quarters_eq_zero (num % den) den
  have half := compare_quarters (num % den) positive
  have most : quarters (accuracyOfFraction (num % den) den) ≤ 2 ↔ 2 * (num % den) ≤ den := by
    rw [← isLE_compare, half, isLE_compare]
  have least : 2 ≤ quarters (accuracyOfFraction (num % den) den) ↔ den ≤ 2 * (num % den) := by
    rw [← not_lt, ← compare_lt_iff_lt, half, compare_lt_iff_lt, not_lt]
  -- `k` halves end below the whole part, with it, within the unit above it, or beyond
  obtain less | rfl | rfl | more : k < 2 * (num / den) ∨ k = 2 * (num / den) ∨
      k = 2 * (num / den) + 1 ∨ 2 * (num / den) + 2 ≤ k := by omega
  · have below : (k + 1) * den ≤ 2 * (num / den) * den := Nat.mul_le_mul_right _ less
    have twice : 2 * (num / den) * den = 2 * (den * (num / den)) := by ring
    rw [Nat.succ_mul] at below
    omega
  · have twice : 2 * (num / den) * den = 2 * (den * (num / den)) := by ring
    omega
  · have twice : (2 * (num / den) + 1) * den = 2 * (den * (num / den)) + den := by ring
    omega
  · have above : (2 * (num / den) + 2) * den ≤ k * den := Nat.mul_le_mul_right _ more
    have twice : (2 * (num / den) + 2) * den = 2 * (den * (num / den)) + 2 * den := by ring
    omega

/-- The quarters are as good as the quotient for rounding to coarser units. -/
theorem roundDiv_quarters (num shift : Nat) {den : Nat} (positive : 0 < den) :
    roundDiv (4 * (num / den) + quarters (accuracyOfFraction (num % den) den)) (2 ^ (shift + 2)) =
      roundDiv num (den * 2 ^ shift) := by
  have unit : 0 < den * 2 ^ shift := Nat.mul_pos positive (Nat.two_pow_pos shift)
  obtain ⟨most, least⟩ := Decimal.roundDiv_near num unit
  have even {n : Nat} : 2 * num = (2 * n + 1) * (den * 2 ^ shift) →
      roundDiv num (den * 2 ^ shift) % 2 = 0 := Decimal.even_of_halfway unit
  have side (n : Nat) := quarters_le_iff num ((2 * n + 1) * 2 ^ shift) positive
  have halves (n : Nat) : (2 * n + 1) * 2 ^ shift * den = (2 * n + 1) * (den * 2 ^ shift) := by ring
  simp only [halves] at side
  have four : 2 ^ (shift + 2) = 4 * 2 ^ shift := by ring
  generalize roundDiv num (den * 2 ^ shift) = n at *
  generalize 4 * (num / den) + quarters (accuracyOfFraction (num % den) den) = whole at *
  rw [four]
  have above := (side n).1.2 most
  refine Decimal.roundDiv_eq (by positivity) ?_ (by linarith) ?_
  · cases n with
    | zero => omega
    | succ n =>
      have below := (side n).2.2 (by linarith)
      linarith
  · intro odd
    constructor
    · cases n with
      | zero => omega
      | succ n =>
        have strict : ¬ whole ≤ 2 * ((2 * n + 1) * 2 ^ shift) := by
          intro tie
          have same := even (n := n) (le_antisymm ((side n).1.1 tie) (by linarith))
          omega
        linarith
    · have strict : ¬ 2 * ((2 * n + 1) * 2 ^ shift) ≤ whole := by
        intro tie
        have same := even (n := n) (le_antisymm most ((side n).2.1 tie))
        omega
      linarith

theorem lastBit_quarters {whole part : Nat} {e : Int} (few : part < 4)
    (fits : e ≤ lastBit whole e) : lastBit (4 * whole + part) (e - 2) = lastBit whole e := by
  rw [lastBit] at fits
  rw [lastBit, lastBit]
  rcases Nat.eq_zero_or_pos whole with rfl | positive
  · have small : (4 * 0 + part).log2 ≤ 1 := by
      rw [Nat.mul_zero, Nat.zero_add]
      interval_cases part <;> decide
    rw [Nat.log2_zero] at fits ⊢
    omega
  · have bits : (4 * whole + part).log2 = whole.log2 + 2 := by
      have bottom := Nat.log2_self_le positive.ne'
      have top := Nat.lt_log2_self (n := whole)
      refine (Nat.log2_eq_iff (by omega)).2 ⟨?_, ?_⟩
      · rw [Nat.pow_add]
        omega
      · rw [Nat.add_right_comm, Nat.pow_add]
        omega
    rw [bits]
    omega

/-- What was left over is rounded along with the whole part, as two more bits. -/
theorem roundWithAccuracy_quarters (sign : Sign) {whole : Nat} {e : Int} (accuracy : Accuracy)
    (fits : e ≤ lastBit whole e) :
    roundWithAccuracy .binary64 sign whole e accuracy =
      roundWithAccuracy .binary64 sign (4 * whole + quarters accuracy) (e - 2) .exact := by
  have start : ExtendedMantissa.ofMantissaAndAccuracy whole accuracy =
      (⟨4 * whole + quarters accuracy, false, false⟩ : ExtendedMantissa) >>> 2 := by
    have few := quarters_lt accuracy
    have floor : (4 * whole + quarters accuracy) / 2 ^ 2 = whole := by omega
    have rest : (4 * whole + quarters accuracy) % 2 ^ 2 = quarters accuracy := by omega
    rw [shiftRight_exact, floor, rest]
    cases accuracy with
    | exact => rfl
    | inexact half => cases half <;> rfl
  have shifts (em : ExtendedMantissa) (shift : Nat) : em >>> 2 >>> shift = em >>> (shift + 2) := by
    induction shift with
    | zero => rfl
    | succ shift ih => exact congrArg ExtendedMantissa.shiftRightOne ih
  have first : shiftToTargetExponent .binary64 whole e accuracy =
      shiftToTargetExponent .binary64 (4 * whole + quarters accuracy) (e - 2) .exact := by
    have amount : (lastBit whole e - (e - 2)).toNat = (lastBit whole e - e).toNat + 2 := by omega
    rw [shiftToTargetExponent_eq, lastBit_quarters (quarters_lt accuracy) fits, amount, ← shifts,
      ← start, shiftToTargetExponent, targetExponent_eq, shiftToExponent]
    ext1
    · rfl
    · show e + _ = e - 2 + _
      omega
  rw [roundWithAccuracy, first]
  rfl

/-- How far below a number the values reach that are rounded to it, in quarters of its last bit.
Below a power of two the neighbour is twice as near, unless the exponent is the least one. -/
def quartersBelow (m : Nat) (e : Int) : Nat :=
  if m = 2 ^ 52 ∧ e ≠ -1074 then 1 else 2

/-- The values that are rounded to a number. -/
structure Within (m : Nat) (e : Int) (q : ℚ) : Prop where
  least : value (4 * m - quartersBelow m e) (e - 2) ≤ q
  most : q ≤ value (4 * m + 2) (e - 2)
  inside : m % 2 = 1 → value (4 * m - quartersBelow m e) (e - 2) < q ∧ q < value (4 * m + 2) (e - 2)

theorem quartersBelow_le (m : Nat) (e : Int) : quartersBelow m e ≤ 2 := by
  rw [quartersBelow]
  split <;> decide

theorem value_quarter (m shift : Nat) (e : Int) :
    value m (e - shift) = (m : ℚ) / (2 ^ shift : Nat) * 2 ^ e := by
  rw [value, zpow_sub₀ two_ne_zero, zpow_natCast, Nat.cast_pow, Nat.cast_two]
  ring

section Quotient

variable {num den : Nat} {e : Int}

theorem value_le_quotient_iff (k shift : Nat) (positive : 0 < den) :
    value k (e - shift) ≤ num / den * 2 ^ e ↔ k * den ≤ num * 2 ^ shift := by
  rw [value_quarter, mul_le_mul_iff_left₀ (zpow_pos two_pos e),
    div_le_div_iff₀ (by positivity) (by positivity)]
  exact_mod_cast Iff.rfl

theorem quotient_le_value_iff (k shift : Nat) (positive : 0 < den) :
    num / den * 2 ^ e ≤ value k (e - shift) ↔ num * 2 ^ shift ≤ k * den := by
  rw [value_quarter, mul_le_mul_iff_left₀ (zpow_pos two_pos e),
    div_le_div_iff₀ (by positivity) (by positivity)]
  exact_mod_cast Iff.rfl

theorem quotient_eq_units {last : Int} (fits : e ≤ last) :
    (num : ℚ) / den * 2 ^ e = num / (den * 2 ^ (last - e).toNat : Nat) * 2 ^ last := by
  have units := value_eq_units (m := num) fits
  rw [value] at units
  rw [div_mul_eq_mul_div, units, Nat.cast_mul, Nat.cast_pow, Nat.cast_two]
  ring

theorem quotient_lt_top (positive : 0 < den) (fits : e ≤ lastBit (num / den) e) :
    (num : ℚ) / den * 2 ^ e < value (2 ^ 53) (lastBit (num / den) e) := by
  have shift : lastBit (num / den) e - (lastBit (num / den) e - e).toNat = e := by omega
  rw [← value_shift (2 ^ 53) (lastBit (num / den) e - e).toNat, shift]
  refine mul_lt_mul_of_pos_right ?_ (zpow_pos two_pos e)
  rw [div_lt_iff₀ (Nat.cast_pos.2 positive)]
  exact_mod_cast (Nat.div_lt_iff_lt_mul positive).1 (lt_of_bits fits)

theorem bottom_le_quotient (fits : e ≤ lastBit (num / den) e)
    (normal : lastBit (num / den) e ≠ -1074) :
    value (2 ^ 52) (lastBit (num / den) e) ≤ num / den * 2 ^ e := by
  have some : 0 < num / den := by
    refine Nat.pos_of_ne_zero fun none => normal ?_
    rw [none, lastBit, Nat.log2_zero] at fits ⊢
    omega
  refine (bottom_le_value some normal fits).trans ?_
  exact mul_le_mul_of_nonneg_right Nat.cast_div_le (zpow_nonneg two_pos.le e)

variable {m : Nat} {d : Int}

theorem quarters_lt_top (canonical : Canonical m d) :
    value (4 * m + 2) (d - 2) < value (2 ^ 53) d := by
  have short := canonical.short
  have shift := value_shift (2 ^ 53) 2 d
  rw [← shift]
  exact value_lt_value _ (by omega)

/-- Values that are rounded to a number have its last bit, but for those below a power of two. -/
theorem Within.lastBit_cases (within : Within m d (num / den * 2 ^ e)) (canonical : Canonical m d)
    (positive : 0 < den) (fits : e ≤ lastBit (num / den) e) :
    lastBit (num / den) e = d ∨
      lastBit (num / den) e = d - 1 ∧ m = 2 ^ 52 ∧ d ≠ -1074 := by
  have floor : -1074 ≤ lastBit (num / den) e := le_max_right _ _
  have least := canonical.least
  -- with a lower last bit all values lie below the interval, unless it reaches below a power of two
  rcases lt_trichotomy (lastBit (num / den) e) d with less | same | more
  · right
    have normal : d ≠ -1074 := by omega
    have full := canonical.full.resolve_right normal
    have top := within.least.trans_lt (quotient_lt_top positive fits)
    have power : m = 2 ^ 52 := by
      by_contra other
      have reach : quartersBelow m d = 2 := if_neg fun both => other both.1
      have quarter := value_shift (2 ^ 52) 2 d
      refine absurd top (not_lt.2 ((value_top_le_bottom less).trans ?_))
      rw [← quarter, reach]
      exact value_le_value _ (by omega)
    refine ⟨?_, power, normal⟩
    by_contra other
    have reach : quartersBelow m d = 1 := if_pos ⟨power, normal⟩
    have half := value_shift (2 ^ 52) 1 (d - 1)
    have under : lastBit (num / den) e < d - 1 := by omega
    have exponent : d - 1 - (1 : Nat) = d - 2 := by omega
    refine absurd top (not_lt.2 ((value_top_le_bottom under).trans ?_))
    rw [← half, reach, exponent]
    exact value_le_value _ (by omega)
  · exact .inl same
  · exfalso
    have bottom := bottom_le_quotient fits (by omega)
    have top := within.most.trans_lt (quarters_lt_top canonical)
    exact absurd (bottom.trans_lt top) (not_lt.2 (value_top_le_bottom more))

/-- A quotient within the interval of a number is rounded to it. -/
theorem Within.rounded_eq (within : Within m d (num / den * 2 ^ e)) (canonical : Canonical m d)
    (positive : 0 < den) (fits : e ≤ lastBit (num / den) e) :
    value (roundDiv num (den * 2 ^ (lastBit (num / den) e - e).toNat)) (lastBit (num / den) e) =
      value m d := by
  have some : 0 < den * 2 ^ (lastBit (num / den) e - e).toNat :=
    Nat.mul_pos positive (Nat.two_pow_pos _)
  have cases := within.lastBit_cases canonical positive fits
  have top := quotient_lt_top positive fits
  rw [quotient_eq_units fits] at within top
  generalize lastBit (num / den) e = last at *
  generalize den * 2 ^ (last - e).toNat = unit at *
  obtain ⟨least, most, inside⟩ := within
  rcases cases with rfl | ⟨rfl, rfl, normal⟩
  · have quarter : last - 2 = last - (2 : Nat) := rfl
    have reach := quartersBelow_le m last
    have wide : 4 * m * unit ≤ (4 * m - quartersBelow m last + 2) * unit :=
      Nat.mul_le_mul_right _ (by omega)
    rw [quarter] at least most inside
    rw [value_le_quotient_iff _ _ some] at least
    rw [quotient_le_value_iff _ _ some] at most
    rw [← not_le, ← not_le, quotient_le_value_iff _ _ some, value_le_quotient_iff _ _ some,
      not_le, not_le] at inside
    have nearest : roundDiv num unit = m := by
      refine Decimal.roundDiv_eq some (by linarith) (by linarith) fun odd => ?_
      obtain ⟨least, most⟩ := inside odd
      constructor <;> linarith
    rw [nearest]
  · have reach : quartersBelow (2 ^ 52) d = 1 := if_pos ⟨rfl, normal⟩
    have quarter : d - 2 = d - 1 - (1 : Nat) := by omega
    rw [quarter, reach, value_le_quotient_iff _ _ some] at least
    have less : num < 2 ^ 53 * unit := by
      have whole : value (2 ^ 53) (d - 1 - (0 : Nat)) ≤ num / unit * 2 ^ (d - 1) ↔
          2 ^ 53 * unit ≤ num * 2 ^ 0 := value_le_quotient_iff _ _ some
      rw [Nat.cast_zero, Int.sub_zero, Nat.pow_zero, Nat.mul_one] at whole
      exact not_le.1 fun above => not_le.2 top (whole.2 above)
    have nearest : roundDiv num unit = 2 ^ 53 :=
      Decimal.roundDiv_eq some (by omega) (by linarith) (by omega)
    rw [nearest]
    exact value_shift (2 ^ 52) 1 d

end Quotient

theorem Canonical.eq_of_value_eq {m n : Nat} {d e : Int} (first : Canonical m d)
    (second : Canonical n e) (same : value m d = value n e) : m = n ∧ d = e := by
  rcases lt_trichotomy d e with less | rfl | more
  · exact absurd same (first.value_lt second less).ne
  · rw [value, value, mul_left_inj' (zpow_pos two_pos d).ne'] at same
    exact ⟨Nat.cast_injective same, rfl⟩
  · exact absurd same (second.value_lt first more).ne'

/-- A quotient within the interval of a number is rounded to its mantissa and exponent. -/
theorem Within.round_eq {m num den : Nat} {d e : Int} (within : Within m d (num / den * 2 ^ e))
    (sign : Sign) (canonical : Canonical m d) (some : 0 < m) (positive : 0 < den)
    (fits : e ≤ lastBit (num / den) e) :
    roundWithAccuracy .binary64 sign (num / den) e (accuracyOfFraction (num % den) den) =
      .finite sign m d some := by
  have nearest := within.rounded_eq canonical positive fits
  have last := lastBit_quarters (quarters_lt (accuracyOfFraction (num % den) den)) fits
  have amount : (lastBit (num / den) e - (e - 2)).toNat =
      (lastBit (num / den) e - e).toNat + 2 := by omega
  rw [← roundDiv_quarters _ _ positive, ← amount] at nearest
  rw [roundWithAccuracy_quarters sign _ fits]
  generalize 4 * (num / den) + quarters (accuracyOfFraction (num % den) den) = whole at *
  rw [← last] at nearest fits
  have kept : rounded whole (e - 2) = value m d := nearest
  have above : 0 < rounded whole (e - 2) := kept ▸ value_pos some d
  have counts : units whole (e - 2) ≠ 0 := by
    intro none
    rw [rounded, none, value, Nat.cast_zero, zero_mul] at above
    exact lt_irrefl 0 above
  have wholePos : 0 < whole := by
    refine Nat.pos_of_ne_zero fun none => counts ?_
    have zero := Decimal.roundDiv_mul 0 (Nat.two_pow_pos (lastBit 0 (e - 2) - (e - 2)).toNat)
    rw [Nat.zero_mul] at zero
    rwa [none]
  obtain ⟨n, f, _, result, other, exact, _⟩ :=
    roundWithAccuracy_finite sign wholePos (by omega) counts
  obtain ⟨rfl, rfl⟩ := other.eq_of_value_eq canonical (exact.trans kept)
  exact result

end TieredCompaction.Binary64
