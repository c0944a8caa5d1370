import TieredCompaction.Proofs.Binary64.Comparison
import TieredCompaction.Proofs.Bucket.Ascending
/-!
The laws of binary64 that the program depends on: the order is transitive, greater counts are not
converted to lesser numbers, a share of a number does not exceed it, a multiple is not below it, and
multiples of greater numbers are not lesser. The checks of factors are told by exact values
(`lowInRange_iff`, `highInRange_iff`).
-/
namespace TieredCompaction.Binary64

open Float.Model (Format UnpackedFloat)
open Float.Model.UnpackedFloat (Sign pack unpack roundWithAccuracy)

/-- The sign, mantissa and exponent of a number. -/
def parts (x : Float) : UnpackedFloat :=
  x.toModel.unpack

theorem le_iff {x y : Float} : Quantity.le x y = true ↔ (parts x).le (parts y) = true :=
  decide_eq_true_iff.trans (decide_eq_true_iff (p := x.toModel ≤ y.toModel))

theorem lt_iff {x y : Float} : decide (x < y) = true ↔ (parts x).lt (parts y) = true :=
  decide_eq_true_iff.trans (decide_eq_true_iff (p := x.toModel < y.toModel))

theorem parts_mul (x y : Float) :
    parts (x * y) = unpack .binary64 (pack .binary64 (.mul .binary64 (parts x) (parts y))) := rfl

theorem parts_ofNat {n : Nat} (word : n < UInt64.size) :
    parts (Quantity.ofNat n) = unpack .binary64 (pack .binary64 (.ofNat .binary64 n)) := by
  have same : (UInt64.ofNat n).toNat = n := UInt64.toNat_ofNat_of_lt word
  show unpack .binary64 (pack .binary64 (.ofNat .binary64 (UInt64.ofNat n).toNat)) = _
  rw [same]

/-- A number that is positive, in a form that is kept. -/
structure Positive (x : Float) (m : Nat) (e : Int) : Prop where
  parts_eq : ∃ pos, parts x = .finite .positive m e pos
  canonical : Canonical m e
  top : e ≤ topExponent

namespace Positive

variable {x y : Float} {m n : Nat} {d e : Int}

theorem pos (positive : Positive x m d) : 0 < m :=
  positive.parts_eq.1

theorem le_iff (first : Positive x m d) (second : Positive y n e) :
    Quantity.le x y = true ↔ value m d ≤ value n e := by
  obtain ⟨hm, hx⟩ := first.parts_eq
  obtain ⟨hn, hy⟩ := second.parts_eq
  rw [Binary64.le_iff, hx, hy]
  exact le_finite_iff first.canonical second.canonical hm hn

theorem zero_le (zero : parts x = .zero .positive) (positive : Positive y n e) :
    Quantity.le x y = true := by
  obtain ⟨pos, parts⟩ := positive.parts_eq
  rw [Binary64.le_iff, zero, parts]
  rfl

end Positive

theorem positive_ofNat {n : Nat} (some : 0 < n) (word : n < UInt64.size) :
    ∃ m e, Positive (Quantity.ofNat n) m e ∧ value m e = roundedCount n := by
  obtain ⟨m, e, pos, parts, canonical, nearest, last⟩ := ofNat_finite some
  have bits : n.log2 < 64 := (Nat.log2_lt some.ne').2 word
  have top : e ≤ topExponent := by
    rw [lastBit] at last
    rw [topExponent]
    omega
  refine ⟨m, e, ⟨⟨pos, ?_⟩, canonical, top⟩, nearest⟩
  rw [parts_ofNat word, parts]
  exact unpack_pack .positive canonical top pos

theorem parts_zero : parts (Quantity.ofNat 0) = .zero .positive := rfl

theorem ofNat_mono {m n : Nat} (ordered : m ≤ n) (word : n < UInt64.size) :
    Quantity.le (Quantity.ofNat m : Float) (Quantity.ofNat n) = true := by
  by_cases some : 0 < m
  · obtain ⟨_, _, first, below⟩ := positive_ofNat some (lt_of_le_of_lt ordered word)
    obtain ⟨_, _, second, above⟩ := positive_ofNat (some.trans_le ordered) word
    rw [first.le_iff second, below, above]
    exact roundedCount_mono some ordered
  · obtain rfl : m = 0 := Nat.eq_zero_of_not_pos some
    by_cases other : 0 < n
    · obtain ⟨_, _, second, _⟩ := positive_ofNat other word
      exact Positive.zero_le parts_zero second
    · obtain rfl : n = 0 := Nat.eq_zero_of_not_pos other
      rfl

theorem parts_one : parts 1 = .finite .positive (2 ^ 52) (-52) (by positivity) := rfl

private theorem unit_canonical : Canonical (2 ^ 52) (-52) :=
  ⟨by norm_num, by norm_num, .inl le_rfl⟩

private theorem value_unit : value (2 ^ 52) (-52) = 1 := by
  norm_num [value]

theorem positive_of_lowInRange {low : Float} (inRange : Options.lowInRange low = true) :
    ∃ m e, Positive low m e ∧ value m e < 1 := by
  rw [Options.lowInRange, Bool.and_eq_true, lt_iff, lt_iff] at inRange
  obtain ⟨above, below⟩ := inRange
  have zero : parts 0 = .zero .positive := rfl
  rw [zero] at above
  rw [parts_one] at below
  cases found : parts low with
  | notANumber => rw [found] at above; cases above
  | zero sign => rw [found] at above; cases above
  | infinity sign =>
    rw [found] at above below
    cases sign with
    | negative => cases above
    | positive => cases below
  | finite sign m e pos =>
    rw [found] at above below
    obtain ⟨canonical, top⟩ := canonical_unpack found
    cases sign with
    | negative => cases above
    | positive =>
      refine ⟨m, e, ⟨⟨pos, found⟩, canonical, top⟩, ?_⟩
      have less := (lt_finite_iff canonical unit_canonical pos _).1 below
      rwa [value_unit] at less

theorem positive_of_highInRange {high : Float} (inRange : Options.highInRange high = true) :
    ∃ m e, Positive high m e ∧ 1 < value m e := by
  rw [Options.highInRange, Bool.and_eq_true, lt_iff] at inRange
  obtain ⟨above, finite⟩ := inRange
  have finite : (parts high).isFinite = true := finite
  rw [parts_one] at above
  cases found : parts high with
  | notANumber => rw [found] at above; cases above
  | zero sign => rw [found] at above; cases above
  | infinity sign => rw [found] at finite; cases finite
  | finite sign m e pos =>
    rw [found] at above
    obtain ⟨canonical, top⟩ := canonical_unpack found
    cases sign with
    | negative => cases above
    | positive =>
      refine ⟨m, e, ⟨⟨pos, found⟩, canonical, top⟩, ?_⟩
      have more := (lt_finite_iff unit_canonical canonical _ pos).1 above
      rwa [value_unit] at more

/-- The rational number that a number is, if it is finite. -/
def asRational (x : Float) : Option ℚ :=
  match parts x with
  | .zero _ => some 0
  | .finite .positive m e _ => some (value m e)
  | .finite .negative m e _ => some (-value m e)
  | .infinity _ | .notANumber => none

theorem Positive.asRational_eq {x : Float} {m : Nat} {e : Int} (positive : Positive x m e) :
    asRational x = some (value m e) := by
  obtain ⟨_, parts⟩ := positive.parts_eq
  rw [asRational, parts]

theorem positive_of_asRational {x : Float} {q : ℚ} (exact : asRational x = some q) (above : 0 < q) :
    ∃ m e, Positive x m e ∧ value m e = q := by
  unfold asRational at exact
  split at exact
  · cases exact
    exact absurd above (lt_irrefl 0)
  · next m e pos found =>
    obtain ⟨canonical, top⟩ := canonical_unpack found
    exact ⟨m, e, ⟨⟨pos, found⟩, canonical, top⟩, Option.some.inj exact⟩
  · next m e pos found =>
    cases exact
    exact absurd above (not_lt.2 (neg_nonpos.2 (value_nonneg m e)))
  · cases exact
  · cases exact

/-- A number is taken for a lower factor if and only if it lies between zero and one. Neither an
infinity nor what is no number does. -/
theorem lowInRange_iff {low : Float} :
    Options.lowInRange low = true ↔ ∃ q, asRational low = some q ∧ 0 < q ∧ q < 1 := by
  constructor
  · intro inRange
    obtain ⟨m, e, positive, below⟩ := positive_of_lowInRange inRange
    exact ⟨value m e, positive.asRational_eq, value_pos positive.pos e, below⟩
  · rintro ⟨q, exact, above, below⟩
    obtain ⟨m, e, positive, rfl⟩ := positive_of_asRational exact above
    obtain ⟨pos, found⟩ := positive.parts_eq
    rw [Options.lowInRange, Bool.and_eq_true, lt_iff, lt_iff, found, parts_one]
    refine ⟨rfl, (lt_finite_iff positive.canonical unit_canonical pos _).2 ?_⟩
    rwa [value_unit]

/-- A number is taken for an upper factor if and only if it is finite and above one. -/
theorem highInRange_iff {high : Float} :
    Options.highInRange high = true ↔ ∃ q, asRational high = some q ∧ 1 < q := by
  constructor
  · intro inRange
    obtain ⟨m, e, positive, above⟩ := positive_of_highInRange inRange
    exact ⟨value m e, positive.asRational_eq, above⟩
  · rintro ⟨q, exact, above⟩
    obtain ⟨m, e, positive, rfl⟩ := positive_of_asRational exact (zero_lt_one.trans above)
    obtain ⟨pos, found⟩ := positive.parts_eq
    have finite : high.isFinite = (parts high).isFinite := rfl
    rw [Options.highInRange, Bool.and_eq_true, lt_iff, finite, found, parts_one]
    refine ⟨(lt_finite_iff unit_canonical positive.canonical _ pos).2 ?_, rfl⟩
    rwa [value_unit]

/-- What a quantity that is not negative is rounded to: zero, a number that is kept, or the infinity
in place of a number that is too great. -/
inductive Rounds (x : Float) (q : ℚ) : Prop where
  | zero (none : q = 0) (parts_eq : parts x = .zero .positive)
  | kept {m : Nat} {e : Int} (positive : Positive x m e) (exact : value m e = q)
  | beyond {m : Nat} {e : Int} (canonical : Canonical m e) (above : topExponent < e)
      (exact : value m e = q) (parts_eq : parts x = .infinity .positive)

/-- Rounded quantities compare as the quantities do. -/
theorem Rounds.le {x y : Float} {p q : ℚ} (first : Rounds x p) (second : Rounds y q)
    (ordered : p ≤ q) : Quantity.le x y = true := by
  cases first with
  | zero none zero =>
    cases second with
    | zero _ other => rw [le_iff, zero, other]; rfl
    | kept positive _ => exact Positive.zero_le zero positive
    | beyond _ _ _ infinite => rw [le_iff, zero, infinite]; rfl
  | @kept m e positive exact =>
    cases second with
    | zero none _ =>
      exact absurd ordered (not_le.2 (none ▸ exact ▸ value_pos positive.pos e))
    | kept other same => exact (positive.le_iff other).2 (exact ▸ same ▸ ordered)
    | beyond _ _ _ infinite =>
      obtain ⟨_, parts⟩ := positive.parts_eq
      rw [le_iff, parts, infinite]
      rfl
  | @beyond m e canonical above exact infinite =>
    cases second with
    | zero none _ =>
      have full : 2 ^ 52 ≤ m := canonical.full.resolve_right fun least => by
        rw [topExponent] at above
        omega
      have some : 0 < m := Nat.lt_of_lt_of_le (by positivity) full
      exact absurd ordered (not_le.2 (none ▸ exact ▸ value_pos some e))
    | kept positive same =>
      have less := positive.canonical.value_lt canonical (lt_of_le_of_lt positive.top above)
      exact absurd ordered (not_le.2 (exact ▸ same ▸ less))
    | beyond _ _ _ other => rw [le_iff, infinite, other]; rfl

theorem Positive.rounds {x : Float} {m : Nat} {e : Int} (positive : Positive x m e) :
    Rounds x (value m e) :=
  .kept positive rfl

theorem rounds_zero_mul {x : Float} {n : Nat} {e : Int} (number : Positive x n e) :
    Rounds (Quantity.ofNat 0 * x) 0 := by
  obtain ⟨_, parts⟩ := number.parts_eq
  refine .zero rfl ?_
  rw [parts_mul, parts_zero, parts]
  exact unpack_zero .positive

theorem Positive.rounds_mul {x y : Float} {m n : Nat} {d e : Int} (first : Positive x m d)
    (second : Positive y n e) : Rounds (x * y) (rounded (m * n) (d + e)) := by
  have fits := first.canonical.mul_fits second.canonical first.pos second.pos
  have product : 0 < m * n := Nat.mul_pos first.pos second.pos
  have result : parts (x * y) = unpack .binary64 (pack .binary64
      (roundWithAccuracy .binary64 .positive (m * n) (d + e) .exact)) := by
    obtain ⟨_, hx⟩ := first.parts_eq
    obtain ⟨_, hy⟩ := second.parts_eq
    rw [parts_mul, hx, hy]
    rfl
  by_cases none : units (m * n) (d + e) = 0
  · rw [roundWithAccuracy_zero .positive fits none, unpack_zero] at result
    exact .zero (by simp [rounded, none, value]) result
  · obtain ⟨k, f, hk, finite, canonical, nearest, _⟩ :=
      roundWithAccuracy_finite .positive product fits none
    rw [finite] at result
    by_cases top : f ≤ topExponent
    · rw [unpack_pack .positive canonical top hk] at result
      exact .kept ⟨⟨hk, result⟩, canonical, top⟩ nearest
    · rw [pack_of_above (not_le.1 top), unpack_infinity] at result
      exact .beyond canonical (not_le.1 top) nearest result

theorem zero_mul_le {low : Float} {n : Nat} {e : Int} (share : Positive low n e) :
    Quantity.le (Quantity.ofNat 0 * low) (Quantity.ofNat 0) = true :=
  (rounds_zero_mul share).le (.zero rfl parts_zero) le_rfl

theorem le_zero_mul {high : Float} {n : Nat} {e : Int} (factor : Positive high n e) :
    Quantity.le (Quantity.ofNat 0) (Quantity.ofNat 0 * high) = true :=
  Rounds.le (.zero rfl parts_zero) (rounds_zero_mul factor) le_rfl

/-- A share of a positive number does not exceed it, after rounding. -/
theorem Positive.mul_le {x low : Float} {m n : Nat} {d e : Int} (number : Positive x m d)
    (share : Positive low n e) (part : value n e < 1) : Quantity.le (x * low) x = true := by
  refine (number.rounds_mul share).le number.rounds ?_
  have less : value (m * n) (d + e) ≤ value m d := by
    rw [value_mul]
    exact mul_le_of_le_one_right (value_nonneg m d) part.le
  calc rounded (m * n) (d + e) ≤ rounded m d :=
        rounded_mono (Nat.mul_pos number.pos share.pos) number.pos
          (number.canonical.mul_fits share.canonical number.pos share.pos)
          (number.canonical.lastBit_eq number.pos).ge less
    _ = value m d := number.canonical.rounded_eq number.pos

/-- A multiple of a positive number is not below it, after rounding. -/
theorem Positive.le_mul {x high : Float} {m n : Nat} {d e : Int} (number : Positive x m d)
    (factor : Positive high n e) (more : 1 < value n e) : Quantity.le x (x * high) = true := by
  refine number.rounds.le (number.rounds_mul factor) ?_
  have greater : value m d ≤ value (m * n) (d + e) := by
    rw [value_mul]
    exact le_mul_of_one_le_right (value_nonneg m d) more.le
  calc value m d = rounded m d := (number.canonical.rounded_eq number.pos).symm
    _ ≤ rounded (m * n) (d + e) :=
      rounded_mono number.pos (Nat.mul_pos number.pos factor.pos)
        (number.canonical.lastBit_eq number.pos).ge
        (number.canonical.mul_fits factor.canonical number.pos factor.pos) greater

/-- Multiples of greater numbers are not lesser, after rounding. -/
theorem Positive.mul_le_mul {x y f : Float} {m n k : Nat} {d e g : Int} (first : Positive x m d)
    (second : Positive y n e) (factor : Positive f k g) (ordered : value m d ≤ value n e) :
    Quantity.le (x * f) (y * f) = true := by
  refine (first.rounds_mul factor).le (second.rounds_mul factor) ?_
  refine rounded_mono (Nat.mul_pos first.pos factor.pos) (Nat.mul_pos second.pos factor.pos)
    (first.canonical.mul_fits factor.canonical first.pos factor.pos)
    (second.canonical.mul_fits factor.canonical second.pos factor.pos) ?_
  rw [value_mul, value_mul]
  exact mul_le_mul_of_nonneg_right ordered (value_nonneg k g)

theorem ofNat_mul_mono {f : Float} {k : Nat} {g : Int} (factor : Positive f k g) {m n : Nat}
    (ordered : m ≤ n) (word : n < UInt64.size) :
    Quantity.le (Quantity.ofNat m * f) (Quantity.ofNat n * f) = true := by
  by_cases some : 0 < m
  · obtain ⟨_, _, first, below⟩ := positive_ofNat some (lt_of_le_of_lt ordered word)
    obtain ⟨_, _, second, above⟩ := positive_ofNat (some.trans_le ordered) word
    refine first.mul_le_mul second factor ?_
    rw [below, above]
    exact roundedCount_mono some ordered
  · obtain rfl : m = 0 := Nat.eq_zero_of_not_pos some
    by_cases other : 0 < n
    · obtain ⟨_, _, second, _⟩ := positive_ofNat other word
      exact (rounds_zero_mul factor).le (second.rounds_mul factor) (value_nonneg _ _)
    · obtain rfl : n = 0 := Nat.eq_zero_of_not_pos other
      exact (rounds_zero_mul factor).le (rounds_zero_mul factor) le_rfl

end TieredCompaction.Binary64

namespace TieredCompaction.Options

theorem inRange_of_make {low high : Float} {minSize : Nat} {o : Options Float}
    (made : make low high minSize = .ok o) :
    lowInRange o.low = true ∧ highInRange o.high = true := by
  by_cases below : lowInRange low = true
  · by_cases above : highInRange high = true
    · rw [make, if_pos below, if_pos above] at made
      cases made
      exact ⟨below, above⟩
    · rw [make, if_pos below, if_neg above] at made
      cases made
  · rw [make, if_neg below] at made
    cases made

/-- Options with a lower factor in range obey the laws of grouping. -/
theorem lawful_of_lowInRange {o : Options Float} (inRange : lowInRange o.low = true) : o.Lawful where
  trans first second := Binary64.le_iff.2
    (Binary64.le_trans (Binary64.le_iff.1 first) (Binary64.le_iff.1 second))
  mono := Binary64.ofNat_mono
  low_le := by
    intro n word
    obtain ⟨_, _, share, part⟩ := Binary64.positive_of_lowInRange inRange
    by_cases some : 0 < n
    · obtain ⟨_, _, number, _⟩ := Binary64.positive_ofNat some word
      exact number.mul_le share part
    · obtain rfl : n = 0 := Nat.eq_zero_of_not_pos some
      exact Binary64.zero_mul_le share

end TieredCompaction.Options
