import TieredCompaction.Decimal.Layout
/-!
The numbers in which read rates and size ratios are computed. Bucketing, ranking and metering are
written once over these operations; the program runs on binary64.
-/
namespace TieredCompaction

inductive Window where
  | short
  | long
  deriving DecidableEq, Repr

/-- The length of a window in seconds: a quarter of an hour, and two hours. -/
def Window.seconds : Window → Nat
  | short => 900
  | long => 7200

/-- Numbers for rates and ratios. -/
class Quantity (R : Type) extends Add R, Sub R, Mul R, Div R where
  /-- The number nearest to a count below `2 ^ 64`. -/
  ofNat : Nat → R
  le : R → R → Bool
  /-- The total order used for sorting. -/
  rankLe : R → R → Bool
  emptySum : R
  /-- The share that five seconds of reads have in the average over a window. -/
  weight : Window → R
  text : R → String

/-- Sums start from the negative zero, which no addend alters, and numbers are sorted by bits. The
weights are `1 - exp (-5 / seconds)`, the exponential rounded to binary64. -/
instance : Quantity Float where
  ofNat n := (UInt64.ofNat n).toFloat
  le x y := x ≤ y
  rankLe x y := Binary64.rank x ≤ Binary64.rank y
  emptySum := -0.0
  weight
    | .short => Float.ofBits 0x3F76B1453A243300
    | .long => Float.ofBits 0x3F46BF6664B77000
  text := NumberStyle.plain.text

end TieredCompaction
