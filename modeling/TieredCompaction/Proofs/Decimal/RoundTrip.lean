import TieredCompaction.Decimal.Layout
import TieredCompaction.Text.Blank
import TieredCompaction.Proofs.Decimal.Shortest
/-!
Numbers come back from their text. A plain text is digits with at most one point, so what is read
is the decimal that was written (`readNumber_positionalText`); and the decimal written for a number
is read as that number (`readNumber_text`).
-/
namespace TieredCompaction

namespace Text

theorem trim_eq_self {s : List Char} (none : ∀ c ∈ s, isBlank c = false) : trim s = s := by
  have keeps {s : List Char} (none : ∀ c ∈ s, isBlank c = false) : s.dropWhile isBlank = s := by
    cases s with
    | nil => rfl
    | cons c s => rw [List.dropWhile_cons_of_neg (by simp [none c List.mem_cons_self])]
  rw [trim, keeps none, keeps fun c member => none c (List.mem_reverse.1 member),
    List.reverse_reverse]

theorem isBlank_of_isDigit {c : Char} (digit : c.isDigit = true) : isBlank c = false := by
  have least : 48 ≤ c.toNat := (Char.isDigit_iff_toNat.1 digit).1
  have most : c.toNat ≤ 57 := (Char.isDigit_iff_toNat.1 digit).2
  simp only [isBlank]
  simp
  omega

end Text

namespace Decimal

/-- Texts of digits only. -/
def Numeric (s : List Char) : Prop :=
  ∀ c ∈ s, c.isDigit = true

section Reading

variable {whole decimals rest : List Char}

theorem numeric_toDigits (n : Nat) : Numeric (Nat.toDigits 10 n) :=
  fun _ => Nat.isDigit_of_mem_toDigits (by decide) (by decide)

theorem readDigits_append (numeric : Numeric whole) (stop : ∀ c ∈ rest.head?, c.isDigit = false) :
    readDigits (whole ++ rest) = (Nat.ofDigitChars 10 whole 0, whole.length, rest) := by
  have taken : (whole ++ rest).takeWhile Char.isDigit = whole := by
    rw [List.takeWhile_append_of_pos numeric]
    cases rest with
    | nil => simp
    | cons c rest => simp [stop c rfl]
  have left : (whole ++ rest).dropWhile Char.isDigit = rest := by
    rw [List.dropWhile_append_of_pos numeric]
    cases rest with
    | nil => rfl
    | cons c rest => simp [stop c rfl]
  rw [readDigits, taken, left]
  rfl

theorem readDigits_numeric (numeric : Numeric whole) :
    readDigits whole = (Nat.ofDigitChars 10 whole 0, whole.length, []) := by
  have all : readDigits (whole ++ []) = _ :=
    readDigits_append numeric fun c member => by cases member
  rwa [List.append_nil] at all

/-- What starts with a digit has no sign and is no word. -/
theorem readNumber_digit {c : Char} (digit : c.isDigit = true) :
    readNumber (c :: rest) = readMagnitude (c :: rest) := by
  have other {first : Char} (letter : first.isDigit = false) : c ≠ first := by
    rintro rfl
    rw [digit] at letter
    cases letter
  have lower : c.toLower = c := by
    have most : c.toNat ≤ 57 := (Char.isDigit_iff_toNat.1 digit).2
    rw [Char.toLower, dif_neg]
    rintro ⟨least, -⟩
    have least : 65 ≤ c.toNat := UInt32.le_iff_toNat_le.1 least
    omega
  have word {first : Char} (letter : first.isDigit = false) (others : List Char) :
      (c :: rest).map Char.toLower ≠ first :: others := by
    intro same
    rw [List.map_cons, lower] at same
    exact other letter (List.cons.inj same).1
  have infinite : ¬ ((c :: rest).map Char.toLower = "inf".toList ∨
      (c :: rest).map Char.toLower = "infinity".toList) :=
    not_or.2 ⟨word (by decide) ['n', 'f'], word (by decide) ['n', 'f', 'i', 'n', 'i', 't', 'y']⟩
  have noNumber : (c :: rest).map Char.toLower ≠ "nan".toList := word (by decide) ['a', 'n']
  simp only [readNumber]
  split
  · next s same => exact absurd (List.cons.inj same).1 (other (by decide))
  · next s same => exact absurd (List.cons.inj same).1 (other (by decide))
  · rw [if_neg infinite, if_neg noNumber]
    simp

theorem readMagnitude_whole (numeric : Numeric whole) (some : whole ≠ []) :
    readMagnitude whole = Option.some (nearest (Nat.ofDigitChars 10 whole 0) 0) := by
  have count : whole.length ≠ 0 := fun none => some (List.length_eq_zero_iff.1 none)
  simp [readMagnitude, readDigits_numeric numeric, count, readExponent]

theorem readMagnitude_pointed (numeric : Numeric whole) (some : whole ≠ [])
    (also : Numeric decimals) :
    readMagnitude (whole ++ '.' :: decimals) =
      Option.some (nearest (Nat.ofDigitChars 10 (whole ++ decimals) 0) (-decimals.length)) := by
  have count : whole.length ≠ 0 := fun none => some (List.length_eq_zero_iff.1 none)
  have split : readDigits (whole ++ '.' :: decimals) =
      (Nat.ofDigitChars 10 whole 0, whole.length, '.' :: decimals) :=
    readDigits_append numeric fun c member => by cases member; rfl
  have joined : Nat.ofDigitChars 10 (whole ++ decimals) 0 =
      Nat.ofDigitChars 10 whole 0 * Nat.pow 10 decimals.length +
        Nat.ofDigitChars 10 decimals 0 := by
    rw [Nat.ofDigitChars_append, Nat.ofDigitChars_eq_ofDigitChars_zero, Nat.mul_comm]
    rfl
  simp [readMagnitude, split, readDigits_numeric also, count, readExponent, joined]

theorem readNumber_whole (numeric : Numeric whole) (some : whole ≠ []) :
    readNumber (Text.trim whole) = Option.some (nearest (Nat.ofDigitChars 10 whole 0) 0) := by
  rw [Text.trim_eq_self fun c member => Text.isBlank_of_isDigit (numeric c member)]
  obtain ⟨c, rest, rfl⟩ := List.exists_cons_of_ne_nil some
  rw [readNumber_digit (numeric c List.mem_cons_self), readMagnitude_whole numeric some]

theorem readNumber_pointed (numeric : Numeric whole) (some : whole ≠ [])
    (also : Numeric decimals) :
    readNumber (Text.trim (whole ++ '.' :: decimals)) =
      Option.some (nearest (Nat.ofDigitChars 10 (whole ++ decimals) 0) (-decimals.length)) := by
  have shown : ∀ c ∈ whole ++ '.' :: decimals, Text.isBlank c = false := by
    intro c member
    rcases List.mem_append.1 member with member | member
    · exact Text.isBlank_of_isDigit (numeric c member)
    · rcases List.mem_cons.1 member with rfl | member
      · decide
      · exact Text.isBlank_of_isDigit (also c member)
  rw [Text.trim_eq_self shown, ← readMagnitude_pointed numeric some also]
  obtain ⟨c, rest, rfl⟩ := List.exists_cons_of_ne_nil some
  exact readNumber_digit (numeric c List.mem_cons_self)

end Reading

theorem numeric_zeros (n : Nat) : Numeric (List.replicate n '0') := by
  intro c member
  rw [List.eq_of_mem_replicate member]
  rfl

theorem Numeric.append {s t : List Char} (first : Numeric s) (second : Numeric t) :
    Numeric (s ++ t) := by
  intro c member
  exact (List.mem_append.1 member).elim (first c) (second c)

/-- A plain text stands for the decimal that it was made of. -/
theorem readNumber_positionalText (d : Digits) :
    ∃ digits exponent, (Digits.mk digits exponent).value = d.value ∧
      readNumber (Text.trim (NumberStyle.plain.positionalText d)) =
        some (nearest digits exponent) := by
  have digits := numeric_toDigits d.digits
  have some : Nat.toDigits 10 d.digits ≠ [] := Nat.toDigits_ne_nil
  by_cases whole : 0 ≤ d.exponent
  · have text : NumberStyle.plain.positionalText d =
        Nat.toDigits 10 d.digits ++ List.replicate d.exponent.toNat '0' := by
      rw [NumberStyle.positionalText, if_pos whole]
      exact List.append_nil _
    refine ⟨10 ^ d.exponent.toNat * d.digits, 0, ?_, ?_⟩
    · have exponent : (d.exponent.toNat : Int) = d.exponent := Int.toNat_of_nonneg whole
      rw [Digits.value, Digits.value, zpow_zero, mul_one, mul_comm, Nat.cast_mul, Nat.cast_pow,
        ← zpow_natCast, exponent]
      rfl
    · have written := List.append_ne_nil_of_left_ne_nil some (List.replicate d.exponent.toNat '0')
      rw [text, readNumber_whole (digits.append (numeric_zeros _)) written,
        Nat.ofDigitChars_append, Nat.ofDigitChars_replicate_zero, Nat.ofDigitChars_ten_toDigits]
  · let padded :=
      List.replicate ((-d.exponent).toNat + 1 - (Nat.toDigits 10 d.digits).length) '0' ++
        Nat.toDigits 10 d.digits
    have text : NumberStyle.plain.positionalText d =
        padded.take (padded.length - (-d.exponent).toNat) ++
          '.' :: padded.drop (padded.length - (-d.exponent).toNat) := by
      rw [NumberStyle.positionalText, if_neg whole]
      rfl
    have numeric : Numeric padded := (numeric_zeros _).append digits
    have length : (-d.exponent).toNat + 1 ≤ padded.length := by
      simp only [padded, List.length_append, List.length_replicate]
      omega
    have number : Nat.ofDigitChars 10 padded 0 = d.digits := by
      rw [Nat.ofDigitChars_append, Nat.ofDigitChars_replicate_zero, Nat.mul_zero,
        Nat.ofDigitChars_ten_toDigits]
    generalize padded = padded at *
    refine ⟨d.digits, d.exponent, rfl, ?_⟩
    have decimals : -((padded.drop (padded.length - (-d.exponent).toNat)).length : Int) =
        d.exponent := by
      rw [List.length_drop]
      omega
    rw [text, readNumber_pointed, List.take_append_drop, number, decimals]
    · exact fun c member => numeric c (List.mem_of_mem_take member)
    · rw [ne_eq, List.take_eq_nil_iff]
      rintro (none | rfl)
      · omega
      · simp at length
    · exact fun c member => numeric c (List.mem_of_mem_drop member)

/-- The plain text of a positive number, with blanks around it cut off, is read as that number. -/
theorem readNumber_text {x : Float} {m : Nat} {e : Int} (positive : Binary64.Positive x m e) :
    readNumber (Text.trim (NumberStyle.plain.text x).toList) = some x := by
  have written : (NumberStyle.plain.text x).toList =
      NumberStyle.plain.positionalText (shortest m e) := by
    rw [NumberStyle.text, positive.ofFloat_eq]
    simp [NumberStyle.magnitudeText, positive.pos.ne', NumberStyle.plain]
  obtain ⟨digits, exponent, same, read⟩ := readNumber_positionalText (shortest m e)
  have within : Binary64.Within m e (Digits.mk digits exponent).value := by
    rw [same]
    exact shortest_within positive.canonical positive.pos
  rw [written, read]
  have nearest := nearest_of_within within positive.canonical positive.top positive.pos
  exact congrArg some (nearest.unique positive)

/-- The text of a word is read as that word. -/
theorem readWord_toString {n : Nat} (word : n < UInt64.size) :
    readWord (Text.trim (toString n).toList) = some n := by
  have digits := numeric_toDigits n
  have length : 0 < (Nat.toDigits 10 n).length := Nat.length_toDigits_pos
  have text : (toString n).toList = Nat.toDigits 10 n := by
    rw [Nat.toString_eq_ofList_toDigits, String.toList_ofList]
  rw [text, Text.trim_eq_self fun c member => Text.isBlank_of_isDigit (digits c member), readWord,
    readDigits_numeric digits, Nat.ofDigitChars_ten_toDigits]
  · simp [length, word]
  · intro s same
    have plus := digits '+' (same ▸ List.mem_cons_self)
    cases plus

end Decimal

end TieredCompaction
