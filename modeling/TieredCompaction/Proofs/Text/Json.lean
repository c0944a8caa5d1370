import Mathlib.Data.List.Basic
import TieredCompaction.Text.Json
/-!
JSON text is read back in one way only. No value's text goes on where another one's ends, so that a
text determines its value. Control characters are escaped, and the text has none.
-/
namespace TieredCompaction.Text

/-! ### Digits -/

/-- What follows does not continue a number. -/
def Plain (rest : List Char) : Prop :=
  ∀ c ∈ rest.head?, c.isDigit = false

theorem plain_cons {c : Char} (other : c.isDigit = false) (rest : List Char) : Plain (c :: rest) := by
  intro d first
  rwa [← Option.some.inj first]

/-- Digits end where the first other character stands. -/
theorem digits_append_inj {xs ys rest other : List Char} (left : ∀ c ∈ xs, c.isDigit = true)
    (right : ∀ c ∈ ys, c.isDigit = true) (plain : Plain rest) (plainOther : Plain other)
    (same : xs ++ rest = ys ++ other) : xs = ys ∧ rest = other := by
  induction xs generalizing ys with
  | nil =>
    cases ys with
    | nil => exact ⟨rfl, same⟩
    | cons d ys =>
      have digit := right d List.mem_cons_self
      have first : rest.head? = some d := by
        rw [List.nil_append] at same
        simp [same]
      simp [plain d first] at digit
  | cons c xs ih =>
    have digit := left c List.mem_cons_self
    cases ys with
    | nil =>
      have first : other.head? = some c := by
        rw [List.nil_append] at same
        simp [← same]
      simp [plainOther c first] at digit
    | cons d ys =>
      obtain ⟨rfl, tails⟩ := List.cons.inj same
      obtain ⟨rfl, rests⟩ := ih (fun c member => left c (List.mem_cons_of_mem _ member))
        (fun c member => right c (List.mem_cons_of_mem _ member)) tails
      exact ⟨rfl, rests⟩

theorem isDigit_of_mem_toDigits {n : Nat} : ∀ c ∈ Nat.toDigits 10 n, c.isDigit = true :=
  fun _ => Nat.isDigit_of_mem_toDigits (by decide) (by decide)

theorem toDigits_injective {m n : Nat} (same : Nat.toDigits 10 m = Nat.toDigits 10 n) : m = n := by
  simpa using congrArg (Nat.ofDigitChars 10 · 0) same

namespace Json

/-! ### Strings -/

/-- The value of a hexadecimal digit in lower case. -/
def digitValue (c : Char) : Nat :=
  if c.isDigit then c.toNat - '0'.toNat else c.toNat - 'a'.toNat + 10

/-- The first character that is written, and the rest of the text. -/
def readChar : List Char → Option (Char × List Char)
  | '\\' :: 'u' :: '0' :: '0' :: high :: low :: rest =>
    some (Char.ofNat (16 * digitValue high + digitValue low), rest)
  | '\\' :: 'b' :: rest => some ('\x08', rest)
  | '\\' :: 'f' :: rest => some ('\x0c', rest)
  | '\\' :: 'n' :: rest => some ('\n', rest)
  | '\\' :: 'r' :: rest => some ('\r', rest)
  | '\\' :: 't' :: rest => some ('\t', rest)
  | '\\' :: c :: rest => some (c, rest)
  | c :: rest => some (c, rest)
  | [] => none

theorem readChar_control {c : Char} (control : c.toNat < 32) (rest : List Char) :
    readChar (['\\', 'u', '0', '0'] ++ controlDigits c ++ rest) = some (c, rest) := by
  have digits : ∀ n < 32, 16 * digitValue (Nat.digitChar (n / 16)) +
      digitValue (Nat.digitChar (n % 16)) = n := by decide
  simp [readChar, controlDigits, digits c.toNat control]

theorem readChar_escapedChar (c : Char) (rest : List Char) :
    readChar (escapedChar c ++ rest) = some (c, rest) := by
  unfold escapedChar
  split_ifs with quote slash bell form line back tab control
  · simp [readChar, quote]
  · simp [readChar, slash]
  · simp [readChar, bell]
  · simp [readChar, form]
  · simp [readChar, line]
  · simp [readChar, back]
  · simp [readChar, tab]
  · exact readChar_control control rest
  · unfold readChar
    split <;> simp_all

/-- Two written characters that look alike are alike, whatever follows. -/
theorem escapedChar_append_inj {c d : Char} {rest other : List Char}
    (same : escapedChar c ++ rest = escapedChar d ++ other) : c = d ∧ rest = other := by
  have read := congrArg readChar same
  simpa [readChar_escapedChar] using read

/-- No written character starts like the end of a string. -/
theorem quote_ne_escapedChar (c : Char) (rest other : List Char) :
    '"' :: rest ≠ escapedChar c ++ other := by
  unfold escapedChar
  split_ifs <;> simp_all [eq_comm]

theorem escaped_append_inj {s t : String} {rest other : List Char}
    (same : escaped s ++ rest = escaped t ++ other) : s = t ∧ rest = other := by
  have inner (xs ys : List Char)
      (same : xs.flatMap escapedChar ++ '"' :: rest = ys.flatMap escapedChar ++ '"' :: other) :
      xs = ys ∧ rest = other := by
    induction xs generalizing ys with
    | nil =>
      cases ys with
      | nil => simpa using same
      | cons d ys => exact absurd (by simpa using same) (quote_ne_escapedChar d rest _)
    | cons c xs ih =>
      cases ys with
      | nil => exact absurd (by simpa using same.symm) (quote_ne_escapedChar c other _)
      | cons d ys =>
        simp only [List.flatMap_cons, List.append_assoc] at same
        obtain ⟨rfl, tails⟩ := escapedChar_append_inj same
        simpa using ih ys tails
  have parts := inner s.toList t.toList (by simpa [escaped] using same)
  exact ⟨String.ext parts.1, parts.2⟩

/-! ### Values -/

/-- The items behind the first one, each with its comma. -/
def laterItems : List Json → List Char
  | [] => []
  | items => ',' :: itemChars items

/-- The fields behind the first one, each with its comma. -/
def laterFields : List (String × Json) → List Char
  | [] => []
  | fields => ',' :: fieldChars fields

theorem itemChars_cons (item : Json) (rest : List Json) :
    itemChars (item :: rest) = chars item ++ laterItems rest := by
  cases rest <;> simp [itemChars, laterItems]

theorem fieldChars_cons (key : String) (value : Json) (rest : List (String × Json)) :
    fieldChars ((key, value) :: rest) = escaped key ++ ':' :: chars value ++ laterFields rest := by
  cases rest <;> simp [fieldChars, laterFields]

theorem toDigits_eq_cons (n : Nat) :
    ∃ c rest, Nat.toDigits 10 n = c :: rest ∧ c.isDigit = true := by
  cases digits : Nat.toDigits 10 n with
  | nil => exact absurd digits Nat.toDigits_ne_nil
  | cons c rest =>
    refine ⟨c, rest, rfl, isDigit_of_mem_toDigits (n := n) c ?_⟩
    simp [digits]

/-- A value does not start like the end of a list. -/
theorem bracket_ne_chars (v : Json) (rest other : List Char) : ']' :: rest ≠ v.chars ++ other := by
  cases v with
  | number n =>
    obtain ⟨c, digits, written, digit⟩ := toDigits_eq_cons n
    rw [chars, written]
    rintro same
    obtain ⟨rfl, -⟩ := List.cons.inj same
    exact absurd digit (by decide)
  | _ => simp [chars, escaped]

theorem plain_laterItems (items : List Json) (rest : List Char) :
    Plain (laterItems items ++ ']' :: rest) := by
  cases items <;> exact plain_cons (by decide) _

theorem plain_laterFields (fields : List (String × Json)) (rest : List Char) :
    Plain (laterFields fields ++ '\x7d' :: rest) := by
  cases fields <;> exact plain_cons (by decide) _

/-- A number is not taken for a value of another kind. -/
theorem toDigits_ne {n : Nat} {c : Char} {rest other : List Char} (sign : c.isDigit = false) :
    Nat.toDigits 10 n ++ rest ≠ c :: other := by
  obtain ⟨d, digits, written, digit⟩ := toDigits_eq_cons n
  rw [written]
  intro same
  obtain ⟨rfl, -⟩ := List.cons.inj same
  exact absurd (sign.symm.trans digit) Bool.false_ne_true

mutual

/-- Two values are written alike only if they are equal, whatever follows them, as long as it does
not continue a number. -/
theorem chars_append_inj (v w : Json) {rest other : List Char} (plain : Plain rest)
    (plainOther : Plain other) (same : v.chars ++ rest = w.chars ++ other) : v = w ∧ rest = other := by
  match v, w with
  | .number m, .number n =>
    obtain ⟨digits, rests⟩ := digits_append_inj isDigit_of_mem_toDigits isDigit_of_mem_toDigits
      plain plainOther (by simpa [chars] using same)
    exact ⟨congrArg number (toDigits_injective digits), rests⟩
  | .string s, .string t =>
    obtain ⟨rfl, rests⟩ := escaped_append_inj (by simpa [chars] using same)
    exact ⟨rfl, rests⟩
  | .list xs, .list ys =>
    obtain ⟨rfl, rests⟩ := itemChars_append_inj xs ys (by simpa [chars] using same)
    exact ⟨rfl, rests⟩
  | .object fs, .object gs =>
    obtain ⟨rfl, rests⟩ := fieldChars_append_inj fs gs (by simpa [chars] using same)
    exact ⟨rfl, rests⟩
  | .number n, .string _ | .number n, .list _ | .number n, .object _ =>
    exact absurd (by simpa [chars, escaped] using same) (toDigits_ne (by decide))
  | .string _, .number n | .list _, .number n | .object _, .number n =>
    exact absurd (by simpa [chars, escaped] using same.symm) (toDigits_ne (by decide))
  | .string _, .list _ | .string _, .object _ | .list _, .string _ | .list _, .object _
  | .object _, .string _ | .object _, .list _ => simp [chars, escaped] at same

theorem itemChars_append_inj (xs ys : List Json) {rest other : List Char}
    (same : itemChars xs ++ ']' :: rest = itemChars ys ++ ']' :: other) :
    xs = ys ∧ rest = other := by
  match xs, ys with
  | [], [] => simpa [itemChars] using same
  | [], y :: ys =>
    rw [itemChars_cons, List.append_assoc] at same
    exact absurd same (bracket_ne_chars y _ _)
  | x :: xs, [] =>
    rw [itemChars_cons, List.append_assoc] at same
    exact absurd same.symm (bracket_ne_chars x _ _)
  | x :: xs, y :: ys =>
    simp only [itemChars_cons, List.append_assoc] at same
    obtain ⟨rfl, tails⟩ := chars_append_inj x y (plain_laterItems xs rest)
      (plain_laterItems ys other) same
    match xs, ys with
    | [], [] => simpa [laterItems] using tails
    | [], _ :: _ | _ :: _, [] => simp [laterItems] at tails
    | _ :: _, _ :: _ =>
      obtain ⟨items, rests⟩ := itemChars_append_inj _ _ (List.cons.inj tails).2
      exact ⟨congrArg _ items, rests⟩

theorem fieldChars_append_inj (fs gs : List (String × Json)) {rest other : List Char}
    (same : fieldChars fs ++ '\x7d' :: rest = fieldChars gs ++ '\x7d' :: other) :
    fs = gs ∧ rest = other := by
  match fs, gs with
  | [], [] => simpa [fieldChars] using same
  | [], (key, value) :: gs => simp [fieldChars_cons, fieldChars, escaped] at same
  | (key, value) :: fs, [] => simp [fieldChars_cons, fieldChars, escaped] at same
  | (key, value) :: fs, (key', value') :: gs =>
    simp only [fieldChars_cons, List.append_assoc, List.cons_append] at same
    obtain ⟨rfl, behind⟩ := escaped_append_inj same
    obtain ⟨rfl, tails⟩ := chars_append_inj value value' (plain_laterFields fs rest)
      (plain_laterFields gs other) (List.cons.inj behind).2
    match fs, gs with
    | [], [] => simpa [laterFields] using tails
    | [], _ :: _ | _ :: _, [] => simp [laterFields] at tails
    | _ :: _, _ :: _ =>
      obtain ⟨fields, rests⟩ := fieldChars_append_inj _ _ (List.cons.inj tails).2
      exact ⟨congrArg _ fields, rests⟩

end

theorem chars_injective : Function.Injective chars := by
  intro v w same
  have plain : Plain [] := by simp [Plain]
  exact (chars_append_inj v w plain plain (by simpa using same)).1

theorem text_injective : Function.Injective text := by
  intro v w same
  exact chars_injective (String.ofList_injective same)

/-! ### No control characters -/

theorem escapedChar_printable (c : Char) : ∀ d ∈ escapedChar c, 32 ≤ d.toNat := by
  have digits : ∀ n < 32, 32 ≤ (Nat.digitChar (n / 16)).toNat ∧
      32 ≤ (Nat.digitChar (n % 16)).toNat := by decide
  unfold escapedChar
  split_ifs with quote slash bell form line back tab control
  · simp
  · simp
  · simp
  · simp
  · simp
  · simp
  · simp
  · simpa [controlDigits] using digits c.toNat control
  · simpa using control

theorem escaped_printable (s : String) : ∀ d ∈ escaped s, 32 ≤ d.toNat := by
  intro d member
  simp only [escaped, List.cons_append, List.mem_cons, List.mem_append, List.mem_flatMap,
    List.not_mem_nil, or_false] at member
  rcases member with rfl | ⟨c, -, written⟩ | rfl
  · decide
  · exact escapedChar_printable c d written
  · decide

mutual

theorem chars_printable (v : Json) : ∀ d ∈ v.chars, 32 ≤ d.toNat := by
  match v with
  | .number n =>
    intro d member
    have digit := isDigit_of_mem_toDigits d (by simpa [chars] using member)
    simp only [Char.isDigit, Bool.and_eq_true, decide_eq_true_eq] at digit
    exact Nat.le_trans (by decide) (UInt32.le_iff_toNat_le.1 digit.1)
  | .string s => simpa [chars] using escaped_printable s
  | .list xs =>
    have items := itemChars_printable xs
    simpa [chars, or_imp, forall_and] using items
  | .object fs =>
    have fields := fieldChars_printable fs
    simpa [chars, or_imp, forall_and] using fields

theorem itemChars_printable (xs : List Json) : ∀ d ∈ itemChars xs, 32 ≤ d.toNat := by
  match xs with
  | [] => simp [itemChars]
  | [x] => simpa [itemChars] using chars_printable x
  | x :: y :: xs =>
    have first := chars_printable x
    have others := itemChars_printable (y :: xs)
    simp only [itemChars, List.mem_append, List.mem_cons, or_imp, forall_and, forall_eq]
    exact ⟨first, by decide, others⟩

theorem fieldChars_printable (fs : List (String × Json)) :
    ∀ d ∈ fieldChars fs, 32 ≤ d.toNat := by
  match fs with
  | [] => simp [fieldChars]
  | [(key, value)] =>
    have name := escaped_printable key
    have first := chars_printable value
    simp only [fieldChars, List.mem_append, List.mem_cons, or_imp, forall_and, forall_eq]
    exact ⟨name, by decide, first⟩
  | (key, value) :: f :: fs =>
    have name := escaped_printable key
    have first := chars_printable value
    have others := fieldChars_printable (f :: fs)
    simp only [fieldChars, List.mem_append, List.mem_cons, or_imp, forall_and, forall_eq]
    exact ⟨⟨name, by decide, first⟩, by decide, others⟩

end

theorem text_printable (v : Json) : ∀ d ∈ v.text.toList, 32 ≤ d.toNat := by
  simpa [text] using v.chars_printable

end Json

end TieredCompaction.Text
