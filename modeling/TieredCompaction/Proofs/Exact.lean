import Mathlib.Algebra.Field.Rat
import Mathlib.Algebra.Order.Ring.Unbundled.Rat
import TieredCompaction.Quantity
/-!
Exact arithmetic. Any field with an order serves for rates and ratios, and then no result is
rounded.
-/
namespace TieredCompaction

/-- What a field does not come with: the weights of the averages, and a way to write numbers. -/
class Gauge (K : Type) where
  weight : Window → K
  text : K → String

instance Quantity.exact {K : Type} [Field K] [LinearOrder K] [Gauge K] : Quantity K where
  ofNat n := n
  le x y := x ≤ y
  rankLe x y := x ≤ y
  emptySum := 0
  weight := Gauge.weight
  text := Gauge.text

/-- The weights have the values of their binary64 numbers. -/
instance : Gauge ℚ where
  weight
    | .short => 0x16B1453A243300 / 2 ^ 60
    | .long => 0x16BF6664B77000 / 2 ^ 63
  text := toString

end TieredCompaction
