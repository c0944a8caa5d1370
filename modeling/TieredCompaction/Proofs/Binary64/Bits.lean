import TieredCompaction.Proofs.Binary64.Laws
/-!
The bits of a positive number. What is taken out of them by shifts and masks is what the program
takes out by division, and no two bit patterns stand for one positive number (`Positive.unique`).
-/
namespace TieredCompaction.Binary64

open Float.Model (Format)
open Float.Model.UnpackedFloat (Sign unpack unpackExponent unpackMantissa unpackSign)

section Parts

variable (bits : BitVec Format.binary64.numBits)

theorem toNat_unpackMantissa : (unpackMantissa bits).toNat = bits.toNat % 2 ^ 52 := by
  rw [unpackMantissa, BitVec.toNat_cast, BitVec.extractLsb_toNat]
  rfl

theorem toNat_unpackExponent : (unpackExponent bits).toNat = bits.toNat / 2 ^ 52 % 2 ^ 11 := by
  rw [unpackExponent, BitVec.toNat_cast, BitVec.extractLsb_toNat, Nat.shiftRight_eq_div_pow]
  rfl

theorem toNat_unpackSign : (unpackSign bits).toNat = bits.toNat / 2 ^ 63 % 2 := by
  rw [unpackSign, BitVec.toNat_cast, BitVec.extractLsb_toNat, Nat.shiftRight_eq_div_pow]
  rfl

theorem unsigned_of_positive (positive : Sign.ofBitVec (unpackSign bits) = .positive) :
    (bits.toNat / 2 ^ 63 % 2 == 1) = false := by
  rw [← toNat_unpackSign]
  rw [Sign.ofBitVec] at positive
  split at positive
  · next zero =>
    rw [zero]
    rfl
  · cases positive

end Parts

theorem ofBits_of_unpack {bits : BitVec Format.binary64.numBits} {m : Nat} {e : Int} {some : 0 < m}
    (unpacked : unpack .binary64 bits = .finite .positive m e some) :
    ofBits bits.toNat = .finite false m e := by
  have bias : (Format.binary64.exponentBias : Int) +
      Format.binary64.mantissaBitsWithoutImplicit = 1075 := rfl
  rw [unpack, bias] at unpacked
  rw [ofBits, Nat.pow_eq, Nat.pow_eq, Nat.pow_eq, ← toNat_unpackMantissa, ← toNat_unpackExponent]
  split at unpacked
  · split at unpacked <;> cases unpacked
  next finite =>
  have below : (unpackExponent bits).toNat ≠ 2047 := fun top => finite (BitVec.eq_of_toNat_eq top)
  rw [if_neg below]
  split at unpacked
  · next lowest =>
    split at unpacked
    · cases unpacked
    · injection unpacked with sign mantissa exponent
      have zero : (unpackExponent bits).toNat = 0 := congrArg BitVec.toNat lowest
      rw [zero] at exponent
      rw [if_pos zero, unsigned_of_positive bits sign, mantissa]
      exact congrArg _ exponent
  · next normal =>
    injection unpacked with sign mantissa exponent
    have above : (unpackExponent bits).toNat ≠ 0 := fun none => normal (BitVec.eq_of_toNat_eq none)
    rw [if_neg above, unsigned_of_positive bits sign, ← mantissa, ← exponent, toNat_implicit]

/-- With and without the implicit bit, the bits count the positive numbers in their order. -/
theorem bits_eq {bits m : Nat} {e : Int} (word : bits < UInt64.size)
    (unpacked : ofBits bits = .finite false m e) : (bits : Int) = m + (e + 1074) * 2 ^ 52 := by
  have word : bits < 2 ^ 64 := word
  simp only [ofBits, Nat.pow_eq] at unpacked
  split at unpacked
  · split at unpacked <;> cases unpacked
  · split at unpacked
    · injection unpacked with sign mantissa exponent
      simp only [beq_eq_false_iff_ne] at sign
      omega
    · injection unpacked with sign mantissa exponent
      simp only [beq_eq_false_iff_ne] at sign
      omega

namespace Positive

variable {x y : Float} {m : Nat} {e : Int}

theorem ofFloat_eq (positive : Positive x m e) : ofFloat x = .finite false m e := by
  obtain ⟨_, parts⟩ := positive.parts_eq
  exact ofBits_of_unpack parts

theorem unique (first : Positive x m e) (second : Positive y m e) : x = y := by
  have counts : (x.toBits.toNat : Int) = y.toBits.toNat := by
    rw [bits_eq x.toBits.toNat_lt first.ofFloat_eq, bits_eq y.toBits.toNat_lt second.ofFloat_eq]
  have same : x.toBits = y.toBits := UInt64.toNat_inj.1 (Int.ofNat_inj.1 counts)
  obtain ⟨⟨bits, valid⟩⟩ := x
  obtain ⟨⟨others, also⟩⟩ := y
  cases same
  rfl

end Positive

end TieredCompaction.Binary64
