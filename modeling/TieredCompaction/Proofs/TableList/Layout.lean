import Mathlib.Logic.Equiv.List
import Mathlib.Logic.Relation
import TieredCompaction.Proofs.TableList.Reading
/-!
The layout of a list of tables: lines that list nothing, comments, the amount of white space, and
words behind the second one. Edits of the layout lead from one list to another if and only if both
list the same (`relaid_iff`), that is, if whatever words are taken for sizes and rates, both are read
alike (`relaid_iff_read`). Each list can be laid out without anything that does not count
(`relaid_bare`).
-/
namespace TieredCompaction.TableList

open Relation (EqvGen)

/-- An edit of a line that touches its layout only. -/
inductive LineEdit : List Char → List Char → Prop where
  /-- A comment is put behind. -/
  | comment (line text : List Char) : LineEdit line (line ++ '#' :: text)
  /-- White space is put beside white space, to either end, or before a comment. -/
  | blanks (front gap back : List Char) (gaps : Text.Gap gap)
      (apart : Text.Ends front ∨ Text.Starts back ∨ back.head? = some '#') :
      LineEdit (front ++ back) (front ++ (gap ++ back))
  /-- Anything is put behind two complete words. -/
  | further (front more : List Char) (complete : Text.Ends front) (uncommented : '#' ∉ front)
      (two : 2 ≤ (Text.words front).length) : LineEdit front (front ++ more)

/-- An edit of lines that touches their layout only. -/
inductive Edit : List (List Char) → List (List Char) → Prop where
  /-- A line is put in that has only white space before a comment, if it has one. -/
  | insert (above below : List (List Char)) (line : List Char)
      (nothing : Text.Gap (Text.before '#' line)) : Edit (above ++ below) (above ++ line :: below)
  | change (above below : List (List Char)) {line other : List Char} (edit : LineEdit line other) :
      Edit (above ++ line :: below) (above ++ other :: below)

/-- Edits of the layout lead from some lines to others; each can be undone. -/
def Relaid : List (List Char) → List (List Char) → Prop :=
  EqvGen Edit

/-- An equivalence that holds along steps holds along any path of them, also backwards. -/
theorem eqvGen_along {α β : Type} {step : α → α → Prop} {alike : β → β → Prop}
    (equivalence : Equivalence alike) (f : α → β) (steps : ∀ a b, step a b → alike (f a) (f b))
    {a b : α} (path : EqvGen step a b) : alike (f a) (f b) := by
  induction path with
  | rel a b taken => exact steps a b taken
  | refl a => exact equivalence.refl (f a)
  | symm _ _ _ ih => exact equivalence.symm ih
  | trans _ _ _ _ _ first second => exact equivalence.trans first second

/-! ### What edits keep -/

theorem not_mem_gap {gap : List Char} (gaps : Text.Gap gap) : '#' ∉ gap := by
  intro member
  exact absurd (gaps '#' member) (by decide)

theorem words_before_blanks {front gap back : List Char} (gaps : Text.Gap gap)
    (apart : Text.Ends front ∨ Text.Starts back ∨ back.head? = some '#') :
    Text.words (Text.before '#' (front ++ (gap ++ back))) =
      Text.words (Text.before '#' (front ++ back)) := by
  by_cases commented : '#' ∈ front
  · obtain ⟨init, rest, rfl, free⟩ := List.eq_append_cons_of_mem commented
    simp only [List.append_assoc, List.cons_append, Text.before_append_stop]
  · rw [Text.before_append_of_not_mem commented, Text.before_append_of_not_mem commented,
      Text.before_append_of_not_mem (not_mem_gap gaps)]
    exact Text.words_insert_gap gaps (apart.imp_right Text.starts_before)

theorem listed?_of_lineEdit {line other : List Char} (edit : LineEdit line other) :
    listed? line = listed? other := by
  cases edit with
  | comment text => rw [listed?, listed?, Text.before_append_stop]
  | blanks front gap back gaps apart => rw [listed?, listed?, words_before_blanks gaps apart]
  | further _ more complete uncommented two =>
    rw [listed?, listed?, Text.before_append_of_not_mem uncommented,
      Text.before_of_not_mem uncommented, Text.words_append (.inl complete)]
    rcases found : Text.words line with _ | ⟨size, _ | ⟨second, others⟩⟩
    · simp [found] at two
    · simp [found] at two
    · rfl

theorem filterMap_of_edit {lines others : List (List Char)} (edit : Edit lines others) :
    lines.filterMap listed? = others.filterMap listed? := by
  cases edit with
  | insert above below line nothing =>
    rw [List.filterMap_append, List.filterMap_append,
      List.filterMap_cons_none (listed?_eq_none_iff.2 nothing)]
  | change above below edit =>
    simp only [List.filterMap_append, List.filterMap_cons, listed?_of_lineEdit edit]

theorem Relaid.listing {lines others : List (List Char)} (relaid : Relaid lines others) :
    lines.filterMap listed? = others.filterMap listed? :=
  eqvGen_along eq_equivalence (·.filterMap listed?) (fun _ _ => filterMap_of_edit) relaid

/-! ### Lists laid out anew -/

/-- The line that lists a table and has nothing else. -/
def Listed.bare (l : Listed) : List Char :=
  match l.rate? with
  | none => l.size
  | some rate => l.size ++ ' ' :: rate

section Line

variable {front gap back tail size line : List Char}

/-- What follows two words can be put there by edits, unless it goes on with the second one. -/
theorem relaid_tail (two : 2 ≤ (Text.words front).length) (uncommented : '#' ∉ front)
    (starts : Text.Starts tail) : EqvGen LineEdit front (front ++ tail) := by
  cases tail with
  | nil =>
    rw [List.append_nil]
    exact .refl _
  | cons c rest =>
    have blank : Text.isBlank c = true := starts c rfl
    have gaps : Text.Gap [c] := List.forall_mem_singleton.2 blank
    have free : '#' ∉ front ++ [c] := by
      rw [List.mem_append, not_or]
      exact ⟨uncommented, not_mem_gap gaps⟩
    have words : 2 ≤ (Text.words (front ++ [c])).length := by
      rw [Text.words_append (.inr gaps.starts), List.length_append]
      omega
    have spaced : EqvGen LineEdit (front ++ []) (front ++ ([c] ++ [])) :=
      .rel _ _ (.blanks front [c] [] gaps (.inr (.inl Text.starts_nil)))
    have behind : EqvGen LineEdit (front ++ [c]) (front ++ [c] ++ rest) :=
      .rel _ _ (.further _ rest (Text.ends_concat blank front) free words)
    simpa using spaced.trans _ _ _ (by simpa using behind)

/-- One space does for any white space between words. -/
theorem relaid_space (gaps : Text.Gap gap) (some : gap ≠ []) (front back : List Char) :
    EqvGen LineEdit (front ++ ' ' :: back) (front ++ (gap ++ back)) := by
  have space : Text.Gap [' '] := List.forall_mem_singleton.2 (by decide)
  have starts : Text.Starts (gap ++ back) := by
    obtain ⟨c, rest, rfl⟩ := List.exists_cons_of_ne_nil some
    exact Text.starts_cons (gaps c List.mem_cons_self) _
  have ends : Text.Ends (front ++ [' ']) := Text.ends_concat (by decide) front
  have both : EqvGen LineEdit (front ++ [' '] ++ back) (front ++ [' '] ++ (gap ++ back)) :=
    .rel _ _ (.blanks _ gap back gaps (.inl ends))
  have more : EqvGen LineEdit (front ++ (gap ++ back)) (front ++ ([' '] ++ (gap ++ back))) :=
    .rel _ _ (.blanks front [' '] _ space (.inr (.inl starts)))
  simpa using both.trans _ _ _ (by simpa using more.symm)

theorem relaid_bare_words {others : List (List Char)} (word : Text.IsWord size)
    (uncommented : '#' ∉ size ++ tail) (starts : Text.Starts tail) (found : Text.words tail = others) :
    EqvGen LineEdit (Listed.bare { size, rate? := others.head? }) (size ++ tail) := by
  cases others with
  | nil =>
    have gaps := Text.words_eq_nil_iff.1 found
    have edit := LineEdit.blanks size tail [] gaps (.inr (.inl Text.starts_nil))
    simpa [Listed.bare] using EqvGen.rel _ _ edit
  | cons rate further =>
    obtain ⟨gap, rest, rfl, gaps, rateWord, restStarts, -⟩ := Text.exists_first_word found
    have some : gap ≠ [] := by
      rintro rfl
      exact rateWord.not_starts rest starts
    have two : 2 ≤ (Text.words (size ++ ' ' :: rate)).length := by
      rw [Text.words_append_blank (by decide), word.words, rateWord.words]
      simp
    have free : '#' ∉ size ++ ' ' :: rate ∧ '#' ∉ rest := by
      simp_all
    have behind := relaid_tail two free.1 restStarts
    exact behind.trans _ _ _ (by simpa using relaid_space gaps some size (rate ++ rest))

/-- A line that lists a table is left with the words for it. -/
theorem relaid_bare_line {l : Listed} (lists : listed? line = some l) :
    EqvGen LineEdit l.bare line := by
  rw [listed?] at lists
  generalize front_eq : Text.before '#' line = front at lists
  obtain ⟨free, cut⟩ := Text.before_eq_iff.1 front_eq
  have comment : EqvGen LineEdit front line := by
    rcases cut with rfl | ⟨text, rfl⟩
    · exact .refl _
    · exact .rel _ _ (.comment _ text)
  cases found : Text.words front with
  | nil => simp [found, Listed.ofWords] at lists
  | cons size others =>
    rw [found] at lists
    cases lists
    obtain ⟨gap, rest, rfl, gaps, word, starts, behind⟩ := Text.exists_first_word found
    have leading : EqvGen LineEdit (size ++ rest) (gap ++ (size ++ rest)) :=
      .rel _ _ (.blanks [] gap _ gaps (.inl Text.ends_nil))
    have uncommented : '#' ∉ size ++ rest := fun member => free (List.mem_append_right _ member)
    exact (relaid_bare_words word uncommented starts behind).trans _ _ _ (leading.trans _ _ _ comment)

end Line

theorem Edit.cons {lines others : List (List Char)} (edit : Edit lines others) (line : List Char) :
    Edit (line :: lines) (line :: others) := by
  cases edit with
  | insert above below new nothing => exact .insert (line :: above) below new nothing
  | change above below edit => exact .change (line :: above) below edit

theorem Relaid.cons {line other : List Char} {lines others : List (List Char)}
    (first : EqvGen LineEdit line other) (rest : Relaid lines others) :
    Relaid (line :: lines) (other :: others) := by
  have equivalence := EqvGen.is_equivalence Edit
  have changed : Relaid (line :: lines) (other :: lines) :=
    eqvGen_along equivalence (· :: lines) (fun _ _ edit => .rel _ _ (.change [] lines edit)) first
  have below : Relaid (other :: lines) (other :: others) :=
    eqvGen_along equivalence (other :: ·) (fun _ _ edit => .rel _ _ (edit.cons other)) rest
  exact equivalence.trans changed below

/-- A list is left with the lines that list a table, and these with their words. -/
theorem relaid_bare (lines : List (List Char)) :
    Relaid ((lines.filterMap listed?).map Listed.bare) lines := by
  induction lines with
  | nil => exact .refl _
  | cons line rest ih =>
    cases lists : listed? line with
    | none =>
      rw [List.filterMap_cons_none lists]
      exact ih.trans _ _ _ (.rel _ _ (.insert [] rest line (listed?_eq_none_iff.1 lists)))
    | some l =>
      rw [List.filterMap_cons_some lists, List.map_cons]
      exact .cons (relaid_bare_line lists) ih

/-- Edits of the layout lead from one list to another exactly if both list the same. -/
theorem relaid_iff {lines others : List (List Char)} :
    Relaid lines others ↔ lines.filterMap listed? = others.filterMap listed? := by
  refine ⟨Relaid.listing, fun same => ?_⟩
  have first := relaid_bare lines
  have second := relaid_bare others
  rw [← same] at second
  exact (first.symm _ _).trans _ _ _ second

example :
    Relaid (["10 1", "0"].map String.toList)
      (["# sizes", "", "  10\t1 x # hot", "0#"].map String.toList) :=
  relaid_iff.2 (by decide)

/-- What is ignored is the layout and nothing else: lists that are read alike, whatever words are
sizes and rates, differ by edits of the layout. -/
theorem relaid_iff_read {lines others : List (List Char)} :
    Relaid lines others ↔ ∀ (R : Type) (w : Words R),
      (read w (lines.map some)).toOption = (read w (others.map some)).toOption := by
  constructor
  · intro relaid R w
    have same := congrArg Except.toOption (mapError_read_congr w relaid.listing)
    rwa [toOption_mapError, toOption_mapError] at same
  · intro alike
    have : Countable Char := Function.Injective.countable fun _ _ => Char.toNat_inj.1
    obtain ⟨code, apart⟩ := exists_injective_nat (List Char)
    -- Where each word is a size and a rate of its own, the rows tell the words.
    let w : Words (Option (List Char)) :=
      { size := fun word => .ok (code word), rate := fun word => some (some word), noRate := none }
    let row (l : Listed) : Row (Option (List Char)) := { size := code l.size, rate := l.rate? }
    have told (lines : List (List Char)) :
        read w (lines.map some) = .ok ((lines.filterMap listed?).map row) := by
      rw [read_eq_ok, List.forall₂_map_right_iff, List.forall₂_same]
      intro l _
      exact ⟨rfl, fun word second => congrArg some second.symm, id⟩
    have injective : Function.Injective row := by
      rintro ⟨size, rate⟩ ⟨otherSize, otherRate⟩ same
      simp only [row, Row.mk.injEq] at same
      rw [apart same.1, same.2]
    have same := alike _ w
    rw [told, told] at same
    exact relaid_iff.2 (List.map_injective_iff.2 injective (Option.some.inj same))

end TieredCompaction.TableList
