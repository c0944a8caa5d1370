import Mathlib.Logic.Function.Basic
import TieredCompaction.Calendar
import TieredCompaction.Proofs.Text.Json
/-!
Different days have different dates, and different moments have different texts, as long as their
years have dates.
-/
namespace TieredCompaction

open Text (Plain plain_cons digits_append_inj)

namespace Calendar

/-! ### Days -/

/-- The year of an era in which a day lies. -/
def yearOfEra (dayOfEra : Nat) : Nat :=
  (dayOfEra - dayOfEra / 1460 + dayOfEra / 36524 - dayOfEra / 146096) / 365

/-- The first day of a year of an era. -/
def startOfYear (year : Nat) : Nat :=
  365 * year + year / 4 - year / 100

theorem startOfYear_eq {century group year : Nat} (hg : group ≤ 24) (hy : year ≤ 3) :
    startOfYear (100 * century + 4 * group + year) =
      36524 * century + 1461 * group + 365 * year := by
  unfold startOfYear
  omega

/-- A day lies in a century, there in a group of four years, and there in a year, of which only the
last one in the group has a day more, unless the century ends with it. -/
theorem exists_parts {day : Nat} (era : day < 146097) :
    ∃ century group year rest : Nat, century ≤ 3 ∧ group ≤ 24 ∧ year ≤ 3 ∧ rest ≤ 365 ∧
      (rest = 365 → year = 3 ∧ (group < 24 ∨ century = 3)) ∧
      day = 36524 * century + 1461 * group + 365 * year + rest := by
  let century := min (day / 36524) 3
  let ofCentury := day - 36524 * century
  let year := min (ofCentury % 1461 / 365) 3
  refine ⟨century, ofCentury / 1461, year, ofCentury % 1461 - 365 * year, ?_⟩
  omega

theorem yearOfEra_eq {century group year rest : Nat} (hc : century ≤ 3) (hg : group ≤ 24)
    (hy : year ≤ 3) (hr : rest ≤ 365)
    (leap : rest = 365 → year = 3 ∧ (group < 24 ∨ century = 3)) :
    yearOfEra (36524 * century + 1461 * group + 365 * year + rest) =
      100 * century + 4 * group + year := by
  generalize whole : 36524 * century + 1461 * group + 365 * year + rest = day
  have groups : day / 1460 = 25 * century + group ∨
      day / 1460 = 25 * century + group + 1 ∧ year = 3 := by
    omega
  have centuries : day / 36524 = century ∧ day / 146096 = 0 ∨
      century = 3 ∧ group = 24 ∧ year = 3 ∧ rest = 365 := by
    omega
  unfold yearOfEra
  rcases centuries with ⟨full, last⟩ | ⟨rfl, rfl, rfl, rfl⟩
  · rw [full, last]
    rcases groups with passed | ⟨passed, rfl⟩ <;> rw [passed] <;> omega
  · rw [← whole]

/-- A day lies in its year, which has 366 days at most. -/
theorem within_year (day : Nat) (era : day < 146097) : yearOfEra day < 400 ∧
    startOfYear (yearOfEra day) ≤ day ∧ day ≤ startOfYear (yearOfEra day) + 365 := by
  obtain ⟨century, group, year, rest, hc, hg, hy, hr, leap, rfl⟩ := exists_parts era
  rw [yearOfEra_eq hc hg hy hr leap, startOfYear_eq hg hy]
  omega

theorem dateOfDay_injective : Function.Injective dateOfDay := by
  intro a b same
  simp only [dateOfDay, Date.mk.injEq] at same
  obtain ⟨year, month, day⟩ := same
  have left := within_year ((a + 719468) % 146097).toNat (by omega)
  have right := within_year ((b + 719468) % 146097).toNat (by omega)
  have eraLeft : a + 719468 =
      146097 * ((a + 719468) / 146097) + ((a + 719468) % 146097).toNat := by omega
  have eraRight : b + 719468 =
      146097 * ((b + 719468) / 146097) + ((b + 719468) % 146097).toNat := by omega
  simp only [yearOfEra, startOfYear] at left right
  generalize ((a + 719468) % 146097).toNat = x at *
  generalize ((b + 719468) % 146097).toNat = y at *
  generalize (x - x / 1460 + x / 36524 - x / 146096) / 365 = xYear at *
  generalize (y - y / 1460 + y / 36524 - y / 146096) / 365 = yYear at *
  -- The month tells where in the year the date lies, and with the day it gives the day of the year.
  have months : (5 * (x - (365 * xYear + xYear / 4 - xYear / 100)) + 2) / 153 =
      (5 * (y - (365 * yYear + yYear / 4 - yYear / 100)) + 2) / 153 := by
    generalize 365 * xYear + xYear / 4 - xYear / 100 = xStart at *
    generalize 365 * yYear + yYear / 4 - yYear / 100 = yStart at *
    split at month <;> split at month <;> omega
  rw [months] at year day
  have years : xYear = yYear := by
    generalize 365 * xYear + xYear / 4 - xYear / 100 = xStart at *
    generalize 365 * yYear + yYear / 4 - yYear / 100 = yStart at *
    omega
  subst years
  generalize 365 * xYear + xYear / 4 - xYear / 100 = start at *
  omega

/-! ### Texts -/

theorem toList_padded (width n : Nat) : (padded width n).toList =
    List.replicate (width - (Nat.toDigits 10 n).length) '0' ++ Nat.toDigits 10 n := by
  have length : n.repr.length = (Nat.toDigits 10 n).length := by
    rw [← Nat.toList_repr, String.length_toList]
  simp [padded, length]

theorem padded_isDigit {width n : Nat} : ∀ c ∈ (padded width n).toList, c.isDigit = true := by
  intro c member
  rw [toList_padded, List.mem_append] at member
  rcases member with zero | digit
  · rw [List.eq_of_mem_replicate zero]
    decide
  · exact Text.isDigit_of_mem_toDigits c digit

theorem padded_injective (width : Nat) : Function.Injective (padded width) := by
  intro m n same
  have value := congrArg (fun text => Nat.ofDigitChars 10 text.toList 0) same
  simpa [toList_padded, Nat.ofDigitChars_append] using value

/-- Padded numbers end where the first other character stands. -/
theorem padded_append_inj {width m n : Nat} {c d : Char} {rest other : List Char}
    (left : c.isDigit = false) (right : d.isDigit = false)
    (same : (padded width m).toList ++ c :: rest = (padded width n).toList ++ d :: other) :
    m = n ∧ c :: rest = d :: other := by
  obtain ⟨digits, behind⟩ := digits_append_inj padded_isDigit padded_isDigit
    (plain_cons left rest) (plain_cons right other) same
  exact ⟨padded_injective width (String.ext digits), behind⟩

/-- A number does not start with a sign. -/
theorem padded_append_ne {width n : Nat} {c d : Char} {rest other : List Char}
    (sign : c.isDigit = false) :
    (padded width n).toList ++ d :: rest ≠ c :: other := by
  intro same
  cases digits : (padded width n).toList with
  | nil =>
    have some := congrArg List.length digits
    simp [toList_padded, Nat.toDigits_ne_nil] at some
  | cons e more =>
    have digit : e.isDigit = true := padded_isDigit e (digits ▸ List.mem_cons_self)
    rw [digits] at same
    obtain ⟨rfl, -⟩ := List.cons.inj same
    exact absurd (sign.symm.trans digit) Bool.false_ne_true

/-- What stands in front of a year that does not have four digits. -/
def sign (year : Int) : Char :=
  if year < 0 then '-' else '+'

theorem sign_isDigit (year : Int) : (sign year).isDigit = false := by
  unfold sign
  split <;> decide

theorem sign_eq_iff {a b : Int} : sign a = sign b ↔ (a < 0 ↔ b < 0) := by
  by_cases left : a < 0 <;> by_cases right : b < 0 <;> simp [sign, left, right]

theorem toList_yearText (year : Int) : (yearText year).toList =
    if 0 ≤ year ∧ year ≤ 9999 then (padded 4 year.toNat).toList
    else sign year :: (padded 4 year.natAbs).toList := by
  unfold yearText sign
  split_ifs <;> simp

theorem yearText_append_inj {a b : Int} {rest other : List Char}
    (same : (yearText a).toList ++ '-' :: rest = (yearText b).toList ++ '-' :: other) :
    a = b ∧ rest = other := by
  have dash : ('-' : Char).isDigit = false := by decide
  rw [toList_yearText, toList_yearText] at same
  split_ifs at same with left right right
  · obtain ⟨years, rests⟩ := padded_append_inj dash dash same
    simp only [List.cons.injEq, true_and] at rests
    exact ⟨by omega, rests⟩
  · exact absurd same (padded_append_ne (sign_isDigit b))
  · exact absurd same.symm (padded_append_ne (sign_isDigit a))
  · simp only [List.cons_append, List.cons.injEq] at same
    obtain ⟨years, rests⟩ := padded_append_inj dash dash same.2
    have before := sign_eq_iff.1 same.1
    simp only [List.cons.injEq, true_and] at rests
    exact ⟨by omega, rests⟩

end Calendar

namespace Moment

/-- A moment of a year that has dates. -/
structure Dated (m : Moment) : Prop where
  word : m.millis < UInt64.size
  year : Calendar.hasYear (Calendar.dateOfDay (m.signed / 86400000)).year = true

instance (m : Moment) : Decidable m.Dated :=
  decidable_of_iff
    (m.millis < UInt64.size ∧
      Calendar.hasYear (Calendar.dateOfDay (m.signed / 86400000)).year = true)
    ⟨fun ⟨word, year⟩ => ⟨word, year⟩, fun dated => ⟨dated.word, dated.year⟩⟩

theorem signed_inj {m n : Moment} (left : m.millis < UInt64.size) (right : n.millis < UInt64.size)
    (same : m.signed = n.signed) : m = n := by
  have word : UInt64.size = 2 ^ 64 := rfl
  obtain ⟨m⟩ := m
  obtain ⟨n⟩ := n
  simp only [signed] at same left right
  congr 1
  split at same <;> split at same <;> omega

/-- The decimals of a second, unless there are none, and the offset behind them. -/
def fractionChars (fraction : Nat) : List Char :=
  if fraction = 0 then "+00:00".toList
  else '.' :: ((Calendar.padded 3 fraction).toList ++ "+00:00".toList)

theorem plain_fractionChars (fraction : Nat) : Plain (fractionChars fraction) := by
  unfold fractionChars
  split_ifs
  · exact plain_cons (by decide) _
  · exact plain_cons (by decide) _

theorem fractionChars_injective : Function.Injective fractionChars := by
  intro m n same
  have plus : ('+' : Char).isDigit = false := by decide
  have offset : "+00:00".toList = '+' :: "00:00".toList := by decide
  unfold fractionChars at same
  rw [offset] at same
  split_ifs at same with left right right
  · exact left.trans right.symm
  · simp at same
  · simp at same
  · simp only [List.cons.injEq, true_and] at same
    exact (Calendar.padded_append_inj plus plus same).1

theorem toList_text {m : Moment} (dated : m.Dated) :
    let date := Calendar.dateOfDay (m.signed / 86400000)
    let ofDay := (m.signed % 86400000).toNat
    let two n := (Calendar.padded 2 n).toList
    m.text.toList = (Calendar.yearText date.year).toList ++ '-' :: (two date.month ++ '-' ::
      (two date.day ++ 'T' :: (two (ofDay / 3600000) ++ ':' :: (two (ofDay / 60000 % 60) ++ ':' ::
        (two (ofDay / 1000 % 60) ++ fractionChars (ofDay % 1000)))))) := by
  unfold text fractionChars
  simp only [dated.year, if_true]
  split_ifs <;> simp

/-- Each part of the text ends where the next one starts, and the parts tell the moment. -/
theorem text_inj {m n : Moment} (left : m.Dated) (right : n.Dated) (same : m.text = n.text) :
    m = n := by
  have dash : ('-' : Char).isDigit = false := by decide
  have letter : ('T' : Char).isDigit = false := by decide
  have colon : (':' : Char).isDigit = false := by decide
  have chars := congrArg String.toList same
  rw [toList_text left, toList_text right] at chars
  obtain ⟨year, chars⟩ := Calendar.yearText_append_inj chars
  obtain ⟨month, chars⟩ := Calendar.padded_append_inj dash dash chars
  obtain ⟨day, chars⟩ := Calendar.padded_append_inj letter letter (List.cons.inj chars).2
  obtain ⟨hour, chars⟩ := Calendar.padded_append_inj colon colon (List.cons.inj chars).2
  obtain ⟨minute, chars⟩ := Calendar.padded_append_inj colon colon (List.cons.inj chars).2
  obtain ⟨second, chars⟩ := digits_append_inj Calendar.padded_isDigit Calendar.padded_isDigit
    (plain_fractionChars _) (plain_fractionChars _) (List.cons.inj chars).2
  have second := Calendar.padded_injective 2 (String.ext second)
  have fraction := fractionChars_injective chars
  have date : Calendar.dateOfDay (m.signed / 86400000) =
      Calendar.dateOfDay (n.signed / 86400000) := by
    cases days : Calendar.dateOfDay (m.signed / 86400000)
    cases others : Calendar.dateOfDay (n.signed / 86400000)
    simp_all
  have days := Calendar.dateOfDay_injective date
  apply signed_inj left.word right.word
  omega

end Moment

end TieredCompaction
