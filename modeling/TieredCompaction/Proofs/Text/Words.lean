import Mathlib.Data.List.Basic
import Mathlib.Data.List.TakeWhile
import TieredCompaction.Text.Blank
/-!
The words of a text. Parts that no word goes across have their words apart (`words_append`), and a
text is taken apart into its first word and what stands around it (`exists_first_word`).
-/
namespace TieredCompaction.Text

/-- Nothing but white space. -/
def Gap (s : List Char) : Prop :=
  ∀ c ∈ s, isBlank c = true

/-- A text that does not go on with the word before it. -/
def Starts (s : List Char) : Prop :=
  ∀ c ∈ s.head?, isBlank c = true

/-- A text whose last word is complete, whatever follows. -/
def Ends (s : List Char) : Prop :=
  ∀ c ∈ s.getLast?, isBlank c = true

structure IsWord (s : List Char) : Prop where
  nonempty : s ≠ []
  filled : ∀ c ∈ s, isBlank c = false

theorem Gap.starts {s : List Char} (gap : Gap s) : Starts s :=
  fun _ first => gap _ (List.mem_of_head? first)

theorem Gap.ends {s : List Char} (gap : Gap s) : Ends s :=
  fun _ last => gap _ (List.mem_of_getLast? last)

theorem starts_nil : Starts [] := by
  simp [Starts]

theorem ends_nil : Ends [] := by
  simp [Ends]

theorem starts_cons {c : Char} (blank : isBlank c) (rest : List Char) : Starts (c :: rest) := by
  intro d first
  exact Option.some.inj first ▸ blank

theorem ends_concat {c : Char} (blank : isBlank c) (front : List Char) : Ends (front ++ [c]) := by
  intro d last
  rw [List.getLast?_concat] at last
  exact Option.some.inj last ▸ blank

@[simp] theorem words_nil : words [] = [] := rfl

theorem words_cons_blank {c : Char} (blank : isBlank c) (rest : List Char) :
    words (c :: rest) = words rest := by
  simpa using words_append_blank blank [] rest

theorem words_append_of_starts (front : List Char) {back : List Char} (starts : Starts back) :
    words (front ++ back) = words front ++ words back := by
  cases back with
  | nil => simp
  | cons c rest =>
    have blank : isBlank c := starts c rfl
    rw [words_append_blank blank, words_cons_blank blank]

theorem words_append_of_ends {front : List Char} (ends : Ends front) (back : List Char) :
    words (front ++ back) = words front ++ words back := by
  rcases List.eq_nil_or_concat' front with rfl | ⟨init, c, rfl⟩
  · simp
  · have blank : isBlank c := ends c (by simp)
    rw [List.append_assoc, List.singleton_append, words_append_blank blank, words_append_blank blank,
      words_nil, List.append_nil]

/-- Where one word ends or another starts, the words are cut apart. -/
theorem words_append {front back : List Char} (apart : Ends front ∨ Starts back) :
    words (front ++ back) = words front ++ words back :=
  apart.elim (words_append_of_ends · back) (words_append_of_starts front)

theorem words_eq_nil_iff {s : List Char} : words s = [] ↔ Gap s := by
  constructor
  · intro none c member
    have flat := flatten_words s
    rw [none, List.flatten_nil, eq_comm, List.filter_eq_nil_iff] at flat
    simpa using flat c member
  · intro gap
    induction s with
    | nil => rfl
    | cons c rest ih =>
      obtain ⟨first, others⟩ := List.forall_mem_cons.1 gap
      rw [words_cons_blank first, ih others]

/-- White space counts for nothing where the words before it and behind it are apart without it. -/
theorem words_insert_gap {front gap back : List Char} (gaps : Gap gap)
    (apart : Ends front ∨ Starts back) : words (front ++ (gap ++ back)) = words (front ++ back) := by
  have none := words_eq_nil_iff.2 gaps
  rw [words_append apart]
  rcases apart with ends | starts
  · rw [words_append (.inl ends), words_append (.inl gaps.ends), none, List.nil_append]
  · rw [← List.append_assoc, words_append (.inr starts), words_append (.inr gaps.starts), none,
      List.append_nil]

theorem IsWord.words {s : List Char} (word : IsWord s) : words s = [s] :=
  words_of_no_blank word.filled word.nonempty

theorem IsWord.not_starts {s : List Char} (word : IsWord s) (rest : List Char) :
    ¬ Starts (s ++ rest) := by
  intro starts
  obtain ⟨c, tail, rfl⟩ := List.exists_cons_of_ne_nil word.nonempty
  have filled := word.filled c List.mem_cons_self
  rw [starts c rfl] at filled
  contradiction

/-- A text that has words starts with a gap, which may be empty, and the first word. -/
theorem exists_first_word {s word : List Char} {others : List (List Char)}
    (found : words s = word :: others) :
    ∃ gap rest, s = gap ++ (word ++ rest) ∧ Gap gap ∧ IsWord word ∧ Starts rest ∧
      words rest = others := by
  let body := s.dropWhile isBlank
  let first := body.takeWhile (!isBlank ·)
  let rest := body.dropWhile (!isBlank ·)
  have whole : s = s.takeWhile isBlank ++ body := List.takeWhile_append_dropWhile.symm
  have cut : body = first ++ rest := List.takeWhile_append_dropWhile.symm
  have gap : Gap (s.takeWhile isBlank) := fun _ => List.mem_takeWhile_imp
  have starts : Starts rest := by
    intro c head
    have stopped := List.head?_dropWhile_not (!isBlank ·) body
    rw [head] at stopped
    simpa using stopped
  have inside : words body = word :: others := by
    rw [← found, whole, words_append (.inl gap.ends), words_eq_nil_iff.2 gap, List.nil_append]
  rw [cut, words_append (.inr starts)] at inside
  have isWord : IsWord first := by
    refine ⟨fun empty => ?_, fun c member => by simpa using List.mem_takeWhile_imp member⟩
    have stopped := List.head?_dropWhile_not isBlank s
    rw [empty, List.nil_append] at cut
    -- The body starts with no blank, and what is left of it starts with nothing else.
    cases head : rest.head? with
    | none =>
      rw [List.head?_eq_none_iff.1 head] at inside
      simp [empty] at inside
    | some c =>
      rw [show s.dropWhile isBlank = rest from cut, head] at stopped
      simp [starts c head] at stopped
  rw [isWord.words] at inside
  obtain ⟨rfl, rfl⟩ := List.cons.inj inside
  exact ⟨_, rest, cut ▸ whole, gap, isWord, starts, rfl⟩

section Before

variable {stop : Char} {s : List Char}

theorem not_mem_before (stop : Char) (s : List Char) : stop ∉ before stop s := by
  intro member
  simpa using List.mem_takeWhile_imp member

theorem before_append_of_not_mem (free : stop ∉ s) (rest : List Char) :
    before stop (s ++ rest) = s ++ before stop rest := by
  have all : ∀ c ∈ s, decide (c ≠ stop) = true := by
    intro c member
    exact decide_eq_true (ne_of_mem_of_not_mem member free)
  rw [before, List.takeWhile_append_of_pos all, before]

@[simp] theorem before_cons_self (rest : List Char) : before stop (stop :: rest) = [] := by
  simp [before]

theorem before_of_not_mem (free : stop ∉ s) : before stop s = s := by
  simpa [before] using before_append_of_not_mem free []

/-- Nothing is left out, or a part that starts with the character looked for. -/
theorem exists_before (stop : Char) (s : List Char) :
    s = before stop s ∨ ∃ rest, s = before stop s ++ stop :: rest := by
  by_cases member : stop ∈ s
  · obtain ⟨front, rest, whole, free⟩ := List.eq_append_cons_of_mem member
    refine .inr ⟨rest, ?_⟩
    rw [whole, before_append_of_not_mem free, before_cons_self, List.append_nil]
  · exact .inl (before_of_not_mem member).symm

/-- What stands before a character is all of a text without it, and otherwise what its first place cuts
off. -/
theorem before_eq_iff {front : List Char} :
    before stop s = front ↔ stop ∉ front ∧ (s = front ∨ ∃ rest, s = front ++ stop :: rest) := by
  constructor
  · rintro rfl
    exact ⟨not_mem_before stop s, exists_before stop s⟩
  · rintro ⟨free, rfl | ⟨rest, rfl⟩⟩
    · exact before_of_not_mem free
    · rw [before_append_of_not_mem free, before_cons_self, List.append_nil]

/-- What follows the first place that is looked for does not matter. -/
theorem before_append_stop (s rest : List Char) :
    before stop (s ++ stop :: rest) = before stop s := by
  rcases exists_before stop s with whole | ⟨tail, whole⟩
  · have free : stop ∉ s := whole ▸ not_mem_before stop s
    rw [before_append_of_not_mem free, before_cons_self, List.append_nil, ← whole]
  · have free := not_mem_before stop s
    rw [whole, List.append_assoc, List.cons_append, before_append_of_not_mem free,
      before_append_of_not_mem free, before_cons_self, before_cons_self]

theorem starts_before (apart : Starts s ∨ s.head? = some stop) : Starts (before stop s) := by
  intro c head
  rw [before, List.head?_takeWhile, Option.mem_def, Option.filter_eq_some_iff] at head
  obtain ⟨head, other⟩ := head
  rcases apart with starts | first
  · exact starts c head
  · simp [Option.some.inj (head.symm.trans first)] at other

end Before

end TieredCompaction.Text
