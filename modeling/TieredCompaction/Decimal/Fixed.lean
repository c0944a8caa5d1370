import TieredCompaction.Decimal.Binary64
/-!
Numbers with a fixed count of decimals. The exact value is rounded to the nearest multiple, and a
tie goes to the even one (`roundDiv_near`, `roundDiv_even`).
-/
namespace TieredCompaction.Decimal

/-- The natural number nearest to `num / den`, the even one if two are as near. -/
def roundDiv (num den : Nat) : Nat :=
  let floor := num / den
  let rest := 2 * (num % den)
  if rest < den ∨ (rest = den ∧ floor % 2 = 0) then floor else floor + 1

theorem roundDiv_near {den : Nat} (num : Nat) (h : 0 < den) :
    2 * num ≤ (2 * roundDiv num den + 1) * den ∧ 2 * (roundDiv num den * den) ≤ 2 * num + den := by
  have split := Nat.div_add_mod num den
  have small := Nat.mod_lt num h
  have comm := Nat.mul_comm (num / den) den
  rw [roundDiv]
  split
  · constructor <;> grind
  · constructor <;> grind

theorem roundDiv_even {num den : Nat} (tie : 2 * (num % den) = den) : roundDiv num den % 2 = 0 := by
  by_cases even : num / den % 2 = 0
  · simp [roundDiv, tie, even]
  · simp only [roundDiv, tie, even]
    simp only [Nat.lt_irrefl, and_false, or_false, ↓reduceIte]
    omega

/-- `units / 10 ^ places`, with all its decimals. -/
private def pointed (units places : Nat) : List Char :=
  if places = 0 then Nat.toDigits 10 units
  else
    let decimals := Nat.toDigits 10 (units % Nat.pow 10 places)
    Nat.toDigits 10 (units / Nat.pow 10 places) ++ '.' ::
      (List.replicate (places - decimals.length) '0' ++ decimals)

/-- The text of a number with `places` decimals. -/
def fixed (places : Nat) (x : Float) : String :=
  match Binary64.ofFloat x with
  | .notANumber => "NaN"
  | .infinite negative => if negative then "-inf" else "inf"
  | .finite negative mantissa exponent =>
    let units :=
      roundDiv (mantissa * Nat.pow 2 exponent.toNat * Nat.pow 10 places)
        (Nat.pow 2 (-exponent).toNat)
    String.ofList ((if negative then ['-'] else []) ++ pointed units places)

end TieredCompaction.Decimal
