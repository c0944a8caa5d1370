import TieredCompaction.Proofs.Binary64.Rounding
/-!
How binary64 numbers compare. Numbers that are kept are compared by exponent first, which is the
order of their values; packing a number into bits and taking it out again gives it back.
-/
namespace TieredCompaction.Binary64

open Float.Model (Format UnpackedFloat)
open Float.Model.UnpackedFloat
  (Sign pack unpack packComponents unpackExponent unpackMantissa unpackSign
    unpackMantissa_packComponents unpackExponent_packComponents)

theorem isLE_compare {α : Type} [LinearOrder α] {a b : α} :
    (compare a b).isLE = true ↔ a ≤ b := by
  rw [Ordering.isLE_iff_ne_gt, not_congr compare_gt_iff_gt, not_lt]

section Values

variable {m n : Nat} {d e : Int}

theorem Canonical.value_lt (first : Canonical m d) (second : Canonical n e) (less : d < e) :
    value m d < value n e := by
  have full : 2 ^ 52 ≤ n := second.full.resolve_right fun least => by
    have floor := first.least
    omega
  exact (value_lt_value d first.short).trans_le
    ((value_top_le_bottom less).trans (value_le_value e full))

theorem compare_exponents (first : Canonical m d) (second : Canonical n e) :
    (compare d e).then (compare m n) = compare (value m d) (value n e) := by
  rcases lt_trichotomy d e with less | rfl | more
  · rw [compare_lt_iff_lt.2 less, compare_lt_iff_lt.2 (first.value_lt second less)]
    rfl
  · rw [compare_eq_iff_eq.2 rfl]
    rcases lt_trichotomy m n with less | rfl | more
    · rw [compare_lt_iff_lt.2 less, compare_lt_iff_lt.2 (value_lt_value d less)]
      rfl
    · rw [compare_eq_iff_eq.2 rfl, compare_eq_iff_eq.2 rfl]
      rfl
    · rw [compare_gt_iff_gt.2 more, compare_gt_iff_gt.2 (value_lt_value d more)]
      rfl
  · rw [compare_gt_iff_gt.2 more, compare_gt_iff_gt.2 (second.value_lt first more)]
    rfl

/-- Positive numbers are compared by their values. -/
theorem compare_finite (first : Canonical m d) (second : Canonical n e) (hm : 0 < m) (hn : 0 < n) :
    (UnpackedFloat.finite .positive m d hm).compare (.finite .positive n e hn) =
      some (compare (value m d) (value n e)) := by
  rw [← compare_exponents first second]
  rfl

theorem le_finite_iff (first : Canonical m d) (second : Canonical n e) (hm : 0 < m) (hn : 0 < n) :
    (UnpackedFloat.finite .positive m d hm).le (.finite .positive n e hn) = true ↔
      value m d ≤ value n e := by
  rw [UnpackedFloat.le, compare_finite first second, Option.any_some, isLE_compare]

theorem lt_finite_iff (first : Canonical m d) (second : Canonical n e) (hm : 0 < m) (hn : 0 < n) :
    (UnpackedFloat.finite .positive m d hm).lt (.finite .positive n e hn) = true ↔
      value m d < value n e := by
  rw [UnpackedFloat.lt, compare_finite first second, beq_iff_eq, Option.some_inj, compare_lt_iff_lt]

end Values

/-- The place of a number in the order: negative numbers, both zeros, positive numbers, with the
infinities at the ends. -/
def place? : UnpackedFloat → Option (Int ×ₗ Int ×ₗ Int)
  | .notANumber => none
  | .infinity .negative => some (toLex (-2, toLex (0, 0)))
  | .finite .negative m e _ => some (toLex (-1, toLex (-e, -m)))
  | .zero _ => some (toLex (0, toLex (0, 0)))
  | .finite .positive m e _ => some (toLex (1, toLex (e, m)))
  | .infinity .positive => some (toLex (2, toLex (0, 0)))

private theorem isLE_then (d e : Int) (m n : Nat) :
    ((compare d e).then (compare m n)).isLE = true ↔ d < e ∨ d = e ∧ m ≤ n := by
  rw [Ordering.isLE_then_iff_or, compare_lt_iff_lt, compare_eq_iff_eq, isLE_compare]

private theorem isGE_then (d e : Int) (m n : Nat) :
    ((compare d e).then (compare m n)).isGE = true ↔ e < d ∨ d = e ∧ n ≤ m := by
  rcases lt_trichotomy d e with less | rfl | more
  · simp [compare_lt_iff_lt.2 less, less.not_gt, less.ne]
  · simp [Nat.isGE_compare]
  · simp [compare_gt_iff_gt.2 more, more]

theorem le_iff_place? (x y : UnpackedFloat) :
    x.le y = true ↔ ∃ p ∈ place? x, ∃ q ∈ place? y, p ≤ q := by
  -- only two finite numbers of one sign need a look at their parts
  rcases x with (_ | _) | _ | _ | ⟨(_ | _), m, d, hm⟩ <;>
    rcases y with (_ | _) | _ | _ | ⟨(_ | _), n, e, hn⟩ <;>
    simp [UnpackedFloat.le, UnpackedFloat.compare, place?, Prod.Lex.toLex_le_toLex, isLE_then,
      isGE_then] <;> rfl

/-- Numbers that are not a number are not below anything, nor is anything below them. -/
theorem le_trans {x y z : UnpackedFloat} (first : x.le y = true) (second : y.le z = true) :
    x.le z = true := by
  rw [le_iff_place?] at first second ⊢
  obtain ⟨p, hp, q, hq, below⟩ := first
  obtain ⟨q', hq', r, hr, above⟩ := second
  obtain rfl : q = q' := Option.some.inj (hq.symm.trans hq')
  exact ⟨p, hp, r, hr, below.trans above⟩

/-- The greatest exponent of a finite number. -/
def topExponent : Int := 971

theorem toNat_implicit (fraction : BitVec 52) : (1#1 ++ fraction).toNat = 2 ^ 52 + fraction.toNat := by
  rw [BitVec.toNat_append, ← Nat.shiftLeft_add_eq_or_of_lt fraction.isLt]
  rfl

private theorem bias_eq :
    (Format.binary64.exponentBias : Int) + Format.binary64.mantissaBitsWithoutImplicit = 1075 := rfl

/-- Whatever the bits, a finite number has a mantissa and an exponent that are kept. -/
theorem canonical_unpack {bits : BitVec Format.binary64.numBits} {sign : Sign} {m : Nat} {e : Int}
    {positive : 0 < m} (unpacked : unpack .binary64 bits = .finite sign m e positive) :
    Canonical m e ∧ e ≤ topExponent := by
  have small : (unpackMantissa bits).toNat < 2 ^ 52 := (unpackMantissa bits).isLt
  have wide : (unpackExponent bits).toNat < 2 ^ 11 := (unpackExponent bits).isLt
  rw [unpack, bias_eq] at unpacked
  split at unpacked
  · split at unpacked <;> cases unpacked
  · next finite =>
    have below : (unpackExponent bits).toNat ≠ 2047 := fun top => finite (BitVec.eq_of_toNat_eq top)
    split at unpacked
    · next lowest =>
      split at unpacked
      · cases unpacked
      · cases unpacked
        have least : ((unpackExponent bits).toNat : Int) - 1075 + 1 = -1074 := by rw [lowest]; rfl
        rw [least]
        exact ⟨⟨by omega, le_rfl, .inr rfl⟩, by decide⟩
    · next normal =>
      cases unpacked
      have above : (unpackExponent bits).toNat ≠ 0 := fun none => normal (BitVec.eq_of_toNat_eq none)
      rw [toNat_implicit]
      refine ⟨⟨by omega, by omega, .inl (by omega)⟩, ?_⟩
      rw [topExponent]
      omega

private theorem unpackSign_packComponents {spec : Format} (sign : Sign)
    (e : BitVec spec.exponentBits) (m : BitVec spec.mantissaBitsWithoutImplicit) :
    Sign.ofBitVec (unpackSign (packComponents spec sign e m)) = sign := by
  have bit : unpackSign (packComponents spec sign e m) = sign.toBitVec := by
    ext i hi
    obtain rfl : i = 0 := by omega
    simp [unpackSign, packComponents, BitVec.getLsbD_append, BitVec.getElem_append]
  rw [bit]
  cases sign <;> rfl

theorem unpack_zero (sign : Sign) :
    unpack .binary64 (pack .binary64 (.zero sign)) = .zero sign := by
  cases sign <;> rfl

theorem unpack_infinity (sign : Sign) :
    unpack .binary64 (pack .binary64 (.infinity sign)) = .infinity sign := by
  cases sign <;> rfl

/-- A number with an exponent above the greatest one is packed as the infinity. -/
theorem pack_of_above {sign : Sign} {m : Nat} {e : Int} {positive : 0 < m} (above : topExponent < e) :
    pack .binary64 (.finite sign m e positive) = pack .binary64 (.infinity sign) := by
  have full : 2 ^ Format.binary64.exponentBits ≤
      (e + Format.binary64.exponentBias + Format.binary64.mantissaBitsWithoutImplicit).toNat + 1 := by
    have capacity : 2 ^ Format.binary64.exponentBits = 2048 := rfl
    rw [topExponent] at above
    rw [add_assoc, bias_eq]
    omega
  simp only [pack, if_pos full]

private theorem unpack_normal (sign : Sign) {m : Nat} {e : Int} (short : m < 2 ^ 53)
    (full : 2 ^ 52 ≤ m) (least : -1074 ≤ e) (top : e ≤ topExponent) (positive : 0 < m) :
    unpack .binary64
        (packComponents .binary64 sign (BitVec.ofNat _ (e + 1075).toNat) (BitVec.ofNat _ m)) =
      .finite sign m e positive := by
  rw [topExponent] at top
  have exponent : (BitVec.ofNat 11 (e + 1075).toNat).toNat = (e + 1075).toNat := by
    rw [BitVec.toNat_ofNat, Nat.mod_eq_of_lt (by omega)]
  have fraction : (1#1 ++ BitVec.ofNat 52 m).toNat = m := by
    rw [toNat_implicit, BitVec.toNat_ofNat]
    omega
  rw [unpack, bias_eq]
  simp only [unpackMantissa_packComponents, unpackExponent_packComponents,
    unpackSign_packComponents]
  rw [if_neg, if_neg]
  · congr 1
    rw [exponent]
    omega
  · intro none
    have zero := congrArg BitVec.toNat none
    rw [exponent] at zero
    change (e + 1075).toNat = 0 at zero
    omega
  · intro all
    have ones := congrArg BitVec.toNat all
    rw [exponent] at ones
    change (e + 1075).toNat = 2047 at ones
    omega

/-- Without the implicit bit, the exponent is the least one. -/
private theorem unpack_subnormal (sign : Sign) {m : Nat} (short : m < 2 ^ 52) (positive : 0 < m) :
    unpack .binary64 (packComponents .binary64 sign 0 (BitVec.ofNat _ m)) =
      .finite sign m (-1074) positive := by
  have fraction : (BitVec.ofNat 52 m).toNat = m := by
    rw [BitVec.toNat_ofNat, Nat.mod_eq_of_lt short]
  rw [unpack, bias_eq]
  simp only [unpackMantissa_packComponents, unpackExponent_packComponents,
    unpackSign_packComponents]
  have least : (0 : BitVec Format.binary64.exponentBits) = 0#11 := rfl
  rw [if_neg, if_pos least, dif_neg]
  · congr 1
  · intro none
    have zero := congrArg BitVec.toNat none
    rw [fraction] at zero
    exact absurd zero positive.ne'
  · decide

/-- Numbers that are kept survive packing. -/
theorem unpack_pack (sign : Sign) {m : Nat} {e : Int} (canonical : Canonical m e)
    (top : e ≤ topExponent) (positive : 0 < m) :
    unpack .binary64 (pack .binary64 (.finite sign m e positive)) = .finite sign m e positive := by
  have least := canonical.least
  have short := canonical.short
  have width : Format.binary64.mantissaBits = 53 := rfl
  have biased : (e + Format.binary64.exponentBias + Format.binary64.mantissaBitsWithoutImplicit).toNat =
      (e + 1075).toNat := by rw [add_assoc, bias_eq]
  have finite : ¬ 2 ^ Format.binary64.exponentBits ≤ (e + 1075).toNat + 1 := by
    have capacity : 2 ^ Format.binary64.exponentBits = 2048 := rfl
    rw [topExponent] at top
    omega
  rw [pack, biased, if_neg finite]
  have bits : m.log2 < 53 := (Nat.log2_lt positive.ne').2 short
  split
  · next normal =>
    have full : 2 ^ 52 ≤ m := (Nat.le_log2 positive.ne').1 (by omega)
    exact unpack_normal sign short full least top positive
  · next subnormal =>
    have few : m < 2 ^ 52 := by
      by_contra full
      have bits : 52 ≤ m.log2 := (Nat.le_log2 positive.ne').2 (not_lt.1 full)
      omega
    obtain rfl : e = -1074 := canonical.full.resolve_left (by omega)
    exact unpack_subnormal sign few positive

end TieredCompaction.Binary64
