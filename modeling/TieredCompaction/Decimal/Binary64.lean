/-!
Binary64 numbers taken apart. A finite number is `mantissa · 2 ^ exponent` with a sign; all exact
text is computed from these integers.
-/
namespace TieredCompaction

/-- The value that the bits of a binary64 number stand for. -/
inductive Binary64 where
  | notANumber
  | infinite (negative : Bool)
  | finite (negative : Bool) (mantissa : Nat) (exponent : Int)
  deriving DecidableEq, Repr

namespace Binary64

/-- One sign bit, eleven bits of exponent, 52 bits of fraction. -/
def ofBits (bits : Nat) : Binary64 :=
  let negative := bits / Nat.pow 2 63 % 2 == 1
  let biased : Nat := bits / Nat.pow 2 52 % Nat.pow 2 11
  let fraction := bits % Nat.pow 2 52
  if biased = 2047 then if fraction = 0 then infinite negative else notANumber
  else if biased = 0 then finite negative fraction (-1074)
  else finite negative (Nat.pow 2 52 + fraction) ((biased : Int) - 1075)

def ofFloat (x : Float) : Binary64 :=
  ofBits x.toBits.toNat

/-- The place of a number's bits in the total order of bit patterns: from the negative numbers of
great magnitude through both zeros to the positive ones. -/
def rank (x : Float) : Nat :=
  let bits := x.toBits.toNat
  if bits < Nat.pow 2 63 then Nat.pow 2 63 + bits else UInt64.size - 1 - bits

private theorem rank_of_bits_inj {a b : Nat} (ha : a < UInt64.size) (hb : b < UInt64.size)
    (h : (if a < Nat.pow 2 63 then Nat.pow 2 63 + a else UInt64.size - 1 - a) =
      if b < Nat.pow 2 63 then Nat.pow 2 63 + b else UInt64.size - 1 - b) : a = b := by
  have half : UInt64.size = Nat.pow 2 63 + Nat.pow 2 63 := rfl
  split at h <;> split at h <;> omega

/-- Only equal bit patterns share a rank. -/
theorem toBits_eq_of_rank_eq {x y : Float} (h : rank x = rank y) : x.toBits = y.toBits :=
  UInt64.toNat_inj.1 (rank_of_bits_inj x.toBits.toNat_lt y.toBits.toNat_lt h)

end Binary64

end TieredCompaction
