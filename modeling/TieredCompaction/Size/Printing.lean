import TieredCompaction.Decimal.Fixed
/-!
Sizes for the reader: the greatest unit that leaves at least one, with two decimals unless the
number is whole.
-/
namespace TieredCompaction.Size

/-- The number in the first unit that leaves less than 1024, or in the last one. -/
def inUnit (x : Float) : List String → Float × String
  | [] => (x, "")
  | [unit] => (x, unit)
  | unit :: rest => if x ≥ 1024 then inUnit (x / 1024) rest else (x, unit)

/-- Whether a number is whole. A fraction up to `2 ^ -52` counts as none. -/
def isWhole (x : Float) : Bool :=
  match Binary64.ofFloat x with
  | .finite _ mantissa exponent =>
    let den := Nat.pow 2 (-exponent).toNat
    mantissa % den * Nat.pow 2 52 ≤ den
  | _ => true

def text (bytes : Nat) : String :=
  let (x, unit) :=
    inUnit (UInt64.ofNat bytes).toFloat ["B", "KiB", "MiB", "GiB", "TiB", "PiB", "EiB"]
  let places := if isWhole x then 0 else 2
  Decimal.fixed places x ++ " " ++ unit

end TieredCompaction.Size
