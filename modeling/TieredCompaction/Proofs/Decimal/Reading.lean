import TieredCompaction.Decimal.Reading
import TieredCompaction.Proofs.Binary64.Bits
import TieredCompaction.Proofs.Binary64.Interval
/-!
A decimal is read as the number whose interval it lies in (`nearest_of_within`). Products and
quotients of integers are rounded once, so what matters is only that none of the steps before
rounding loses anything.
-/
namespace TieredCompaction.Binary64

open Float.Model (Format UnpackedFloat totalExponent)
open Float.Model.UnpackedFloat (Sign accuracyOfFraction divCore pack roundWithAccuracy unpack)

section Operations

variable {m k n : Nat} {d e f : Int}

theorem Within.mul_eq (within : Within m d (value k e * value n f)) (canonical : Canonical m d)
    (some : 0 < m) (hk : 0 < k) (hn : 0 < n) (fits : e + f ≤ lastBit (k * n) (e + f)) :
    UnpackedFloat.mul .binary64 (.finite .positive k e hk) (.finite .positive n f hn) =
      .finite .positive m d some := by
  rw [← value_mul, value, ← div_one ((k * n : Nat) : ℚ), ← Nat.cast_one] at within
  have result := within.round_eq .positive canonical some one_pos (by rwa [Nat.div_one])
  rw [Nat.div_one, Nat.mod_one] at result
  exact result

/-- The exponent at which numbers are divided. -/
def quotientExponent (k n : Nat) (e f : Int) : Int :=
  min (e - f) (Format.binary64.targetExponent (totalExponent k e - totalExponent n f))

/-- A quotient at that exponent has all bits that are kept. -/
theorem quotientExponent_fits (e f : Int) (hk : 0 < k) (hn : 0 < n) :
    quotientExponent k n e f ≤
      lastBit (k * 2 ^ (e - f - quotientExponent k n e f).toNat / n)
        (quotientExponent k n e f) := by
  have least : quotientExponent k n e f ≤ e - f := min_le_left _ _
  have target : quotientExponent k n e f ≤
      max (totalExponent k e - totalExponent n f - 53) (-1074) := min_le_right _ _
  rw [totalExponent, totalExponent] at target
  generalize quotientExponent k n e f = last at *
  by_cases low : last ≤ -1074
  · exact low.trans (le_max_right _ _)
  · have wide : 52 + (n.log2 + 1) ≤ k.log2 + (e - f - last).toNat := by omega
    have full : 2 ^ 52 ≤ k * 2 ^ (e - f - last).toNat / n := by
      rw [Nat.le_div_iff_mul_le hn]
      calc 2 ^ 52 * n ≤ 2 ^ 52 * 2 ^ (n.log2 + 1) := Nat.mul_le_mul_left _ Nat.lt_log2_self.le
        _ = 2 ^ (52 + (n.log2 + 1)) := (Nat.pow_add ..).symm
        _ ≤ 2 ^ (k.log2 + (e - f - last).toNat) := Nat.pow_le_pow_right two_pos wide
        _ = 2 ^ k.log2 * 2 ^ (e - f - last).toNat := Nat.pow_add ..
        _ ≤ k * 2 ^ (e - f - last).toNat := Nat.mul_le_mul_right _ (Nat.log2_self_le hk.ne')
    have bits := (Nat.le_log2 (Nat.pos_of_ne_zero (by omega)).ne').2 full
    rw [lastBit]
    omega

theorem Within.div_eq (within : Within m d (value k e / value n f)) (canonical : Canonical m d)
    (some : 0 < m) (hk : 0 < k) (hn : 0 < n) :
    UnpackedFloat.div .binary64 (.finite .positive k e hk) (.finite .positive n f hn) =
      .finite .positive m d some := by
  have fits := quotientExponent_fits e f hk hn
  have least : quotientExponent k n e f ≤ e - f := min_le_left _ _
  have same : value k e / value n f =
      (k * 2 ^ (e - f - quotientExponent k n e f).toNat : Nat) / n *
        2 ^ quotientExponent k n e f := by
    have shift : ((e - f - quotientExponent k n e f).toNat : Int) =
        e - f - quotientExponent k n e f := Int.toNat_of_nonneg (by omega)
    have powers : (2 : ℚ) ^ (e - f) = 2 ^ (e - f - quotientExponent k n e f).toNat *
        2 ^ quotientExponent k n e f := by
      rw [← zpow_natCast, ← zpow_add₀ two_ne_zero, shift]
      congr 1
      omega
    rw [value, value, mul_div_mul_comm, ← zpow_sub₀ two_ne_zero, powers, Nat.cast_mul,
      Nat.cast_pow, Nat.cast_two]
    ring
  rw [same] at within
  have result := within.round_eq .positive canonical some hn fits
  rw [← result, UnpackedFloat.div, divCore]
  simp only [Nat.shiftLeft_eq]
  rfl

theorem positive_of_parts {x : Float} (canonical : Canonical m d) (top : d ≤ topExponent)
    (some : 0 < m)
    (result : parts x = unpack .binary64 (pack .binary64 (.finite .positive m d some))) :
    Positive x m d :=
  ⟨⟨some, result.trans (unpack_pack .positive canonical top some)⟩, canonical, top⟩

variable {x y : Float}

theorem Within.positive_mul (within : Within m d (value k e * value n f))
    (canonical : Canonical m d) (top : d ≤ topExponent) (some : 0 < m) (first : Positive x k e)
    (second : Positive y n f) : Positive (x * y) m d := by
  obtain ⟨hk, hx⟩ := first.parts_eq
  obtain ⟨hn, hy⟩ := second.parts_eq
  refine positive_of_parts canonical top some ?_
  rw [parts_mul, hx, hy, within.mul_eq canonical some hk hn]
  exact first.canonical.mul_fits second.canonical hk hn

theorem Within.positive_div (within : Within m d (value k e / value n f))
    (canonical : Canonical m d) (top : d ≤ topExponent) (some : 0 < m) (first : Positive x k e)
    (second : Positive y n f) : Positive (x / y) m d := by
  obtain ⟨hk, hx⟩ := first.parts_eq
  obtain ⟨hn, hy⟩ := second.parts_eq
  refine positive_of_parts canonical top some ?_
  have quotient : parts (x / y) =
      unpack .binary64 (pack .binary64 (.div .binary64 (parts x) (parts y))) := rfl
  rw [quotient, hx, hy, within.div_eq canonical some hk hn]

end Operations

theorem asRational_powersOfTen :
    ∀ power, ∀ few : power < Float.exactlyRepresentablePowersOfTen.size,
      asRational Float.exactlyRepresentablePowersOfTen[power] = some (10 ^ power) := by
  decide +kernel

/-- Counts of up to 53 bits are converted without loss. -/
theorem positive_ofNat_exact {n : Nat} (some : 0 < n) (short : n < 2 ^ 53) :
    ∃ m e, Positive (Quantity.ofNat n) m e ∧ value m e = n := by
  have word : n < UInt64.size := short.trans (by decide)
  obtain ⟨m, e, positive, nearest⟩ := positive_ofNat some word
  refine ⟨m, e, positive, nearest.trans ?_⟩
  have bits : n.log2 < 53 := (Nat.log2_lt some.ne').2 short
  have last : lastBit n 0 = n.log2 - 52 := by
    rw [lastBit]
    omega
  have shifted := log2_shift some (-lastBit n 0).toNat
  have product : 0 < n * 2 ^ (-lastBit n 0).toNat := Nat.mul_pos some (Nat.two_pow_pos _)
  have canonical : Canonical (n * 2 ^ (-lastBit n 0).toNat) (0 - (-lastBit n 0).toNat) := by
    refine ⟨(Nat.log2_lt product.ne').1 (by omega), by omega, .inl ?_⟩
    exact (Nat.le_log2 product.ne').1 (by omega)
  rw [roundedCount, canonical.rounded_eq product, value_shift, value, zpow_zero, mul_one]

section Scientific

variable {digits m : Nat} {exponent d : Int}

/-- Few digits with a small exponent are read by one product or quotient of kept numbers. -/
theorem positive_ofScientific_small (within : Within m d (digits * 10 ^ exponent))
    (canonical : Canonical m d) (top : d ≤ topExponent) (some : 0 < m) (positive : 0 < digits)
    (short : digits < 2 ^ 53) (small : exponent.natAbs ≤ 22) :
    Positive (Float.ofScientific digits (exponent < 0) exponent.natAbs) m d := by
  obtain ⟨k, e, first, exact⟩ := positive_ofNat_exact positive short
  have few : exponent.natAbs < Float.exactlyRepresentablePowersOfTen.size :=
    Nat.lt_succ_of_le small
  obtain ⟨n, f, second, power⟩ := positive_of_asRational
    (asRational_powersOfTen exponent.natAbs few) (by positivity)
  rw [Float.ofScientific, dif_pos ⟨short, small⟩]
  by_cases negative : exponent < 0
  · have whole : exponent = -(exponent.natAbs : Int) := by omega
    rw [whole, zpow_neg, zpow_natCast, ← div_eq_mul_inv, ← power, ← exact] at within
    simp only [negative, decide_true, ↓reduceIte]
    exact within.positive_div canonical top some first second
  · have whole : exponent = exponent.natAbs := by omega
    rw [whole, zpow_natCast, ← power, ← exact] at within
    simp only [negative, decide_false]
    exact within.positive_mul canonical top some first second

/-- In general a number is read by one rounding of the exact product or quotient. -/
theorem ofScientific_within (within : Within m d (digits * 10 ^ exponent))
    (canonical : Canonical m d) (some : 0 < m) (positive : 0 < digits)
    (most : exponent ≤ 2 ^ 11) (least : -(2 ^ 11 + digits.log2) ≤ exponent) :
    UnpackedFloat.ofScientific .binary64 digits exponent = .finite .positive m d some := by
  have above : ¬ 2 ^ Format.binary64.exponentBits < exponent := not_lt.2 most
  have below : ¬ exponent < -((2 ^ Format.binary64.exponentBits : Int) + digits.log2) :=
    not_lt.2 least
  rw [UnpackedFloat.ofScientific, dif_neg positive.ne', if_neg above, if_neg below]
  by_cases nonneg : 0 ≤ exponent
  -- digits come with 53 more bits, so that no product has too few
  · have product : (digits : ℚ) * 10 ^ exponent =
        value (digits * 2 ^ 53) (0 - 53) * value (10 ^ exponent.toNat) 0 := by
      have whole : (exponent.toNat : Int) = exponent := Int.toNat_of_nonneg nonneg
      have shift := value_shift digits 53 0
      rw [Nat.cast_ofNat] at shift
      rw [shift, value, value, zpow_zero, mul_one, mul_one, Nat.cast_pow, ← zpow_natCast, whole]
      rfl
    have scaled : digits * 2 ^ 53 * 10 ^ exponent.toNat ≠ 0 := by positivity
    have bits : 53 ≤ (digits * 2 ^ 53 * 10 ^ exponent.toNat).log2 := by
      refine (Nat.le_log2 scaled).2 ?_
      calc 2 ^ 53 ≤ digits * 2 ^ 53 := Nat.le_mul_of_pos_left _ positive
        _ ≤ digits * 2 ^ 53 * 10 ^ exponent.toNat := Nat.le_mul_of_pos_right _ (by positivity)
    rw [product] at within
    rw [if_pos nonneg]
    simp only [Nat.shiftLeft_eq]
    refine within.mul_eq canonical some (by positivity) (by positivity) ?_
    rw [lastBit]
    omega
  · have quotient : (digits : ℚ) * 10 ^ exponent =
        value digits 0 / value (10 ^ (-exponent).toNat) 0 := by
      have whole : ((-exponent).toNat : Int) = -exponent := Int.toNat_of_nonneg (by omega)
      rw [value, value, zpow_zero, mul_one, mul_one, Nat.cast_pow, ← zpow_natCast, whole, zpow_neg,
        div_inv_eq_mul]
      rfl
    rw [quotient] at within
    rw [if_neg nonneg]
    exact within.div_eq canonical some positive (by positivity)

theorem positive_ofScientific (within : Within m d (digits * 10 ^ exponent))
    (canonical : Canonical m d) (top : d ≤ topExponent) (some : 0 < m) (positive : 0 < digits)
    (most : exponent ≤ 2 ^ 11) (least : -(2 ^ 11 + digits.log2) ≤ exponent) :
    Positive (Float.ofScientific digits (exponent < 0) exponent.natAbs) m d := by
  by_cases small : digits < 2 ^ 53 ∧ exponent.natAbs ≤ 22
  · exact positive_ofScientific_small within canonical top some positive small.1 small.2
  · have signed : (if decide (exponent < 0) = true then Int.negOfNat exponent.natAbs
        else Int.ofNat exponent.natAbs) = exponent := by
      by_cases negative : exponent < 0
      · rw [if_pos (decide_eq_true negative), Int.negOfNat_eq, Int.ofNat_eq_natCast]
        omega
      · rw [if_neg (by simpa using negative), Int.ofNat_eq_natCast]
        omega
    rw [Float.ofScientific, dif_neg small]
    simp only [signed]
    refine positive_of_parts canonical top some ?_
    rw [← ofScientific_within within canonical some positive most least]
    rfl

end Scientific

end TieredCompaction.Binary64

namespace TieredCompaction.Decimal

open Binary64 (Canonical Positive Within topExponent value)

theorem lt_ten_pow_length (n : Nat) : n < 10 ^ (Nat.toDigits 10 n).length := by
  have length : 0 < (Nat.toDigits 10 n).length := Nat.length_toDigits_pos
  exact (Nat.length_toDigits_le_iff (by norm_num) length).1 le_rfl

theorem ten_pow_length_le {n : Nat} (positive : 0 < n) :
    10 ^ ((Nat.toDigits 10 n).length - 1) ≤ n := by
  by_cases single : (Nat.toDigits 10 n).length - 1 = 0
  · rw [single, Nat.pow_zero]
    exact positive
  · refine not_lt.1 fun less => ?_
    have short := (Nat.length_toDigits_le_iff (by norm_num) (Nat.pos_of_ne_zero single)).2 less
    omega

theorem two_zpow_le_ten_zpow (n : Nat) : (2 : ℚ) ^ (3 * n : Int) ≤ 10 ^ (n : Int) := by
  rw [zpow_mul, zpow_natCast]
  exact pow_le_pow_left₀ (by positivity) (by norm_num) n

theorem ten_zpow_neg_le (n : Nat) : (10 : ℚ) ^ (-n : Int) ≤ 2 ^ (-(3 * n) : Int) := by
  rw [zpow_neg, zpow_neg]
  exact inv_anti₀ (by positivity) (two_zpow_le_ten_zpow n)

section Nearest

variable {digits m : Nat} {exponent d : Int}

theorem pos_of_within (within : Within m d (digits * 10 ^ exponent)) (some : 0 < m) :
    0 < digits := by
  have reach := Binary64.quartersBelow_le m d
  have above := (Binary64.value_pos (by omega) (d - 2)).trans_le within.least
  refine Nat.pos_of_ne_zero fun none => ?_
  rw [none, Nat.cast_zero, zero_mul] at above
  exact lt_irrefl 0 above

/-- Numbers of the format have no more than 400 digits before the point, nor zeros behind it. -/
theorem length_of_within (within : Within m d (digits * 10 ^ exponent)) (canonical : Canonical m d)
    (top : d ≤ topExponent) (some : 0 < m) :
    -400 ≤ (Nat.toDigits 10 digits).length + exponent ∧
      (Nat.toDigits 10 digits).length + exponent ≤ 400 := by
  have positive := pos_of_within within some
  have length : 0 < (Nat.toDigits 10 digits).length := Nat.length_toDigits_pos
  have ten : (0 : ℚ) < 10 ^ exponent := zpow_pos (by norm_num) exponent
  have more : (1 : ℚ) < 10 := by norm_num
  constructor
  · have reach := Binary64.quartersBelow_le m d
    have least := canonical.least
    have shorter : (10 : ℚ) ^ (-(400 : Nat) : Int) <
        10 ^ ((Nat.toDigits 10 digits).length + exponent) := by
      calc (10 : ℚ) ^ (-(400 : Nat) : Int)
        _ ≤ 2 ^ (-(3 * (400 : Nat)) : Int) := ten_zpow_neg_le 400
        _ ≤ 2 ^ (d - 2) := zpow_le_zpow_right₀ one_le_two (by omega)
        _ = value 1 (d - 2) := by rw [value, Nat.cast_one, one_mul]
        _ ≤ value (4 * m - Binary64.quartersBelow m d) (d - 2) :=
          Binary64.value_le_value _ (by omega)
        _ ≤ digits * 10 ^ exponent := within.least
        _ < 10 ^ (Nat.toDigits 10 digits).length * 10 ^ exponent :=
          mul_lt_mul_of_pos_right (by exact_mod_cast lt_ten_pow_length digits) ten
        _ = 10 ^ ((Nat.toDigits 10 digits).length + exponent) := by
          rw [zpow_add₀ (by norm_num), zpow_natCast]
    have := (zpow_lt_zpow_iff_right₀ more).1 shorter
    omega
  · have short := canonical.short
    have longer : (10 : ℚ) ^ (((Nat.toDigits 10 digits).length - 1 : Nat) + exponent) <
        10 ^ ((400 : Nat) : Int) := by
      calc (10 : ℚ) ^ (((Nat.toDigits 10 digits).length - 1 : Nat) + exponent)
        _ = 10 ^ ((Nat.toDigits 10 digits).length - 1) * 10 ^ exponent := by
          rw [zpow_add₀ (by norm_num), zpow_natCast]
        _ ≤ digits * 10 ^ exponent :=
          mul_le_mul_of_nonneg_right (by exact_mod_cast ten_pow_length_le positive) ten.le
        _ ≤ value (4 * m + 2) (d - 2) := within.most
        _ < value (2 ^ 53) d := Binary64.quarters_lt_top canonical
        _ = 2 ^ (53 + d) := by
          rw [value, Nat.cast_pow, Nat.cast_two, zpow_add₀ two_ne_zero]
          rfl
        _ ≤ 2 ^ (3 * (400 : Nat) : Int) :=
          zpow_le_zpow_right₀ one_le_two (by rw [topExponent] at top; omega)
        _ ≤ 10 ^ ((400 : Nat) : Int) := two_zpow_le_ten_zpow 400
    have := (zpow_lt_zpow_iff_right₀ more).1 longer
    omega

end Nearest

/-- A decimal is read as the number in whose interval it lies. -/
theorem nearest_of_within {digits m : Nat} {exponent d : Int}
    (within : Within m d (digits * 10 ^ exponent)) (canonical : Canonical m d)
    (top : d ≤ topExponent) (some : 0 < m) : Positive (nearest digits exponent) m d := by
  have positive := pos_of_within within some
  obtain ⟨least, most⟩ := length_of_within within canonical top some
  have bits : (Nat.toDigits 10 digits).length ≤ digits.log2 + 1 := by
    refine (Nat.length_toDigits_le_iff (by norm_num) (by omega)).2 (Nat.lt_log2_self.trans_le ?_)
    exact Nat.pow_le_pow_left (by norm_num) _
  rw [nearest, if_neg (by omega), if_neg (by omega)]
  exact Binary64.positive_ofScientific within canonical top some positive (by omega) (by omega)

end TieredCompaction.Decimal
