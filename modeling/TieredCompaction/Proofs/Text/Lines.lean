import Mathlib.Data.List.Basic
import Mathlib.Tactic.SplitIfs
import TieredCompaction.Text.Lines
/-!
The lines of a text are those of its bytes. A byte that stands for a line feed or a carriage return
is no part of another character, so that cutting the bytes and cutting the characters come to the
same (`byteLines_toUTF8`).
-/
namespace TieredCompaction.Text

section Coded

variable {α β : Type} [DecidableEq α] [DecidableEq β]

/-- A code has a mark of its own for one character. -/
structure Marks (code : α → List β) (stop : α) (mark : β) : Prop where
  self : code stop = [mark]
  other : ∀ x, mark ∈ code x → x = stop

variable {code : α → List β} {stop feed back : α} {mark feedMark backMark : β}

theorem cutAfter_append_of_not_mem {front : List α} (free : stop ∉ front) (rest : List α) :
    cutAfter stop (front ++ rest) =
      match cutAfter stop rest with
      | ([], last) => ([], front ++ last)
      | (piece :: others, last) => ((front ++ piece) :: others, last) := by
  induction front with
  | nil =>
    rw [List.nil_append]
    obtain ⟨pieces, last⟩ := cutAfter stop rest
    cases pieces <;> rfl
  | cons x front ih =>
    obtain ⟨other, free⟩ := not_or.1 (mt List.mem_cons.2 free)
    rw [List.cons_append, cutAfter, ih free]
    obtain ⟨pieces, last⟩ := cutAfter stop rest
    cases pieces <;> simp [Ne.symm other]

theorem cutAfter_flatMap (marks : Marks code stop mark) (xs : List α) :
    cutAfter mark (xs.flatMap code) =
      ((cutAfter stop xs).1.map (·.flatMap code), (cutAfter stop xs).2.flatMap code) := by
  induction xs with
  | nil => rfl
  | cons x rest ih =>
    rw [List.flatMap_cons, cutAfter]
    by_cases same : x = stop
    · simp [same, marks.self, cutAfter, ih]
    · have free : mark ∉ code x := fun member => same (marks.other x member)
      rw [cutAfter_append_of_not_mem free, ih]
      obtain ⟨pieces, last⟩ := cutAfter stop rest
      cases pieces <;> simp [same]

theorem dropLast_flatMap (marks : Marks code stop mark) (filled : ∀ x, code x ≠ []) (xs : List α) :
    dropLast mark (xs.flatMap code) = (dropLast stop xs).flatMap code := by
  rcases List.eq_nil_or_concat' xs with rfl | ⟨init, x, rfl⟩
  · rfl
  · by_cases same : x = stop
    · simp [dropLast, same, marks.self]
    · obtain ⟨front, b, coded⟩ := (List.eq_nil_or_concat' (code x)).resolve_left (filled x)
      have kept : b ≠ mark := fun last => same (marks.other x (by simp [coded, last]))
      simp [dropLast, same, coded, kept]

theorem linesBy_flatMap (feeds : Marks code feed feedMark) (backs : Marks code back backMark)
    (filled : ∀ x, code x ≠ []) (xs : List α) :
    linesBy feedMark backMark (xs.flatMap code) = (linesBy feed back xs).map (·.flatMap code) := by
  have empty : ((cutAfter feed xs).2.flatMap code).isEmpty = (cutAfter feed xs).2.isEmpty := by
    cases (cutAfter feed xs).2 <;> simp [filled]
  simp only [linesBy, cutAfter_flatMap feeds, List.map_append, List.map_map, empty]
  congr 1
  · exact List.map_congr_left fun piece _ => dropLast_flatMap backs filled piece
  · split <;> rfl

end Coded

/-- Bytes below 128 stand for one character each. -/
theorem toNat_of_mem_utf8EncodeChar {c : Char} {b : UInt8} (member : b ∈ String.utf8EncodeChar c)
    (small : b.toNat < 128) : c.toNat = b.toNat := by
  have value : c.toNat = c.val.toNat := rfl
  simp only [String.utf8EncodeChar] at member
  split_ifs at member <;> simp only [List.mem_cons, List.not_mem_nil, or_false] at member
  -- Only a code of one byte is below 128: the bytes of a longer one have at least that much added.
  case pos => rw [member, UInt8.toNat_ofNat']; omega
  all_goals
    rcases member with rfl | rfl | rfl | rfl <;> rw [UInt8.toNat_ofNat'] at small <;> omega

theorem toUTF8_eq (text : String) :
    text.toUTF8.data.toList = text.toList.flatMap String.utf8EncodeChar := by
  conv_lhs => rw [← String.ofList_toList (s := text), String.toUTF8_eq_toByteArray,
    String.toByteArray_ofList, List.utf8Encode, List.toList_data_toByteArray]

theorem fromUTF8?_utf8Encode (s : List Char) :
    String.fromUTF8? ⟨(s.flatMap String.utf8EncodeChar).toArray⟩ = some (String.ofList s) := by
  have bytes : (⟨(s.flatMap String.utf8EncodeChar).toArray⟩ : ByteArray) =
      (String.ofList s).toByteArray := by
    rw [String.toByteArray_ofList, List.utf8Encode]
    apply ByteArray.ext
    simp
  rw [bytes, String.fromUTF8?, dif_pos (String.ofList s).isValidUTF8]
  rfl

/-- The lines of the bytes of a text are its lines. -/
theorem byteLines_toUTF8 (text : String) :
    byteLines text.toUTF8 = (lines text.toList).map some := by
  have feeds : Marks String.utf8EncodeChar '\n' 10 :=
    ⟨by decide, fun _ member => Char.toNat_inj.1 (toNat_of_mem_utf8EncodeChar member (by decide))⟩
  have backs : Marks String.utf8EncodeChar '\r' 13 :=
    ⟨by decide, fun _ member => Char.toNat_inj.1 (toNat_of_mem_utf8EncodeChar member (by decide))⟩
  rw [byteLines, toUTF8_eq, linesBy_flatMap feeds backs (fun _ => String.utf8EncodeChar_ne_nil),
    List.map_map, lines]
  exact List.map_congr_left fun line _ => by simp [fromUTF8?_utf8Encode]

end TieredCompaction.Text
