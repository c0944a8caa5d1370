import Mathlib.Data.List.Forall2
import TieredCompaction.CommandLine.Program
import TieredCompaction.Proofs.Plan
import TieredCompaction.Proofs.Sorting
import TieredCompaction.Proofs.Text.Words
/-!
Reading a list of tables. A line counts by two words at most (`listed?`). The list is read if the
words of each line that lists a table are read, and then has a row for each of these lines
(`read_eq_ok`); otherwise the first line whose words are refused is told by its number among all
lines (`read_eq_error`). What is told of a refused list but for this number depends on what the
lines list alone, and so does what is read (`mapError_read_congr`).
-/
namespace TieredCompaction.TableList

variable {R : Type}

/-- The words by which a line lists a table: the first one, and the second one if there is one. -/
structure Listed where
  size : List Char
  rate? : Option (List Char)
  deriving DecidableEq

def Listed.ofWords : List (List Char) → Option Listed
  | [] => none
  | size :: others => some { size, rate? := others.head? }

/-- What a line lists by the words before a comment. -/
def listed? (line : List Char) : Option Listed :=
  Listed.ofWords (Text.words (Text.before '#' line))

/-- A line lists nothing if there is only white space before a comment. -/
theorem listed?_eq_none_iff {line : List Char} :
    listed? line = none ↔ Text.Gap (Text.before '#' line) := by
  rw [← Text.words_eq_nil_iff, listed?]
  cases Text.words (Text.before '#' line) <;> simp [Listed.ofWords]

namespace Listed

/-- The words are a size and, if there are two of them, a rate. -/
structure Sound (w : Words R) (l : Listed) : Prop where
  size : ∃ size, w.size l.size = .ok size
  rate : ∀ word, l.rate? = some word → ∃ rate, w.rate word = some rate

/-- What the words are read as. -/
structure Reads (w : Words R) (l : Listed) (row : Row R) : Prop where
  size : w.size l.size = .ok row.size
  rate : ∀ word, l.rate? = some word → w.rate word = some row.rate
  noRate : l.rate? = none → row.rate = w.noRate

/-- Why the words are refused: the first one is no size, or it is one and the second one is no rate. -/
inductive Faulty (w : Words R) (l : Listed) : WordError → Prop where
  | size (cause : Size.ReadError) (refused : w.size l.size = .error cause) : Faulty w l (.size cause)
  | rate (size : Nat) (word : List Char) (read : w.size l.size = .ok size)
      (second : l.rate? = some word) (refused : w.rate word = none) : Faulty w l .rate

/-- Reads the words. -/
def read (w : Words R) (l : Listed) : Except WordError (Row R) :=
  match w.size l.size with
  | .error cause => .error (.size cause)
  | .ok size =>
    match l.rate? with
    | none => .ok { size, rate := w.noRate }
    | some word =>
      match w.rate word with
      | some rate => .ok { size, rate }
      | none => .error .rate

variable {w : Words R} {l : Listed}

/-- The words are read or refused. -/
theorem read_cases (w : Words R) (l : Listed) :
    (∃ row, l.read w = .ok row ∧ l.Reads w row) ∨
      ∃ cause, l.read w = .error cause ∧ l.Faulty w cause := by
  cases sized : w.size l.size with
  | error cause => exact .inr ⟨.size cause, by simp [read, sized], .size cause sized⟩
  | ok size =>
    cases second : l.rate? with
    | none =>
      refine .inl ⟨⟨size, w.noRate⟩, by simp [read, sized, second], sized, ?_, fun _ => rfl⟩
      simp [second]
    | some word =>
      cases rated : w.rate word with
      | none =>
        refine .inr ⟨.rate, ?_, .rate size word sized second rated⟩
        simp [read, sized, second, rated]
      | some rate =>
        refine .inl ⟨⟨size, rate⟩, by simp [read, sized, second, rated], sized, ?_, ?_⟩
        · simp [second, rated]
        · simp [second]

theorem read_eq_ok {row : Row R} : l.read w = .ok row ↔ l.Reads w row := by
  constructor
  · intro read
    obtain ⟨found, same, reads⟩ | ⟨cause, refused, _⟩ := read_cases w l
    · exact Except.ok.inj (same.symm.trans read) ▸ reads
    · cases read.symm.trans refused
  · rintro ⟨sized, rated, unrated⟩
    cases second : l.rate? with
    | none => simp [read, sized, second, ← unrated second]
    | some word => simp [read, sized, second, rated word second]

theorem read_eq_error {cause : WordError} : l.read w = .error cause ↔ l.Faulty w cause := by
  constructor
  · intro refused
    obtain ⟨row, read, _⟩ | ⟨told, same, faulty⟩ := read_cases w l
    · cases refused.symm.trans read
    · exact Except.error.inj (same.symm.trans refused) ▸ faulty
  · rintro (⟨cause, refused⟩ | ⟨size, word, sized, second, refused⟩)
    · simp [read, refused]
    · simp [read, sized, second, refused]

theorem sound_iff : l.Sound w ↔ ∃ row, l.read w = .ok row := by
  simp only [read_eq_ok]
  constructor
  · rintro ⟨⟨size, sized⟩, rated⟩
    cases second : l.rate? with
    | none => exact ⟨⟨size, w.noRate⟩, sized, by simp [second], fun _ => rfl⟩
    | some word =>
      obtain ⟨rate, rated⟩ := rated word second
      exact ⟨⟨size, rate⟩, sized, by simp [second, rated], by simp [second]⟩
  · rintro ⟨row, sized, rated, _⟩
    exact ⟨⟨_, sized⟩, fun word second => ⟨_, rated word second⟩⟩

theorem Faulty.not_sound {cause : WordError} (faulty : l.Faulty w cause) : ¬ l.Sound w := by
  rw [sound_iff]
  rintro ⟨row, read⟩
  cases read.symm.trans (read_eq_error.2 faulty)

end Listed

variable {w : Words R}

theorem readLine_eq (w : Words R) (line : List Char) :
    readLine w line =
      match listed? line with
      | none => .ok none
      | some l => (l.read w).map some := by
  simp only [readLine, listed?]
  cases Text.words (Text.before '#' line) with
  | nil => rfl
  | cons size others =>
    simp only [Listed.ofWords, Listed.read]
    cases w.size size with
    | error cause => rfl
    | ok n =>
      cases others with
      | nil => rfl
      | cons rate further => cases found : w.rate rate <;> simp [found] <;> rfl

section Lines

variable {number : Nat} {line : List Char} {l : Listed} {rest : List (Option (List Char))}

theorem readFrom_of_nothing (nothing : listed? line = none) :
    readFrom w number (some line :: rest) = readFrom w (number + 1) rest := by
  rw [readFrom, readLine_eq, nothing]
  cases readFrom w (number + 1) rest <;> rfl

theorem readFrom_of_row (lists : listed? line = some l) {row : Row R} (read : l.read w = .ok row) :
    readFrom w number (some line :: rest) = (readFrom w (number + 1) rest).map (row :: ·) := by
  rw [readFrom, readLine_eq, lists]
  simp only [read, Except.map]
  cases readFrom w (number + 1) rest <;> rfl

theorem readFrom_of_fault (lists : listed? line = some l) {cause : WordError}
    (read : l.read w = .error cause) :
    readFrom w number (some line :: rest) = .error (.line number cause) := by
  rw [readFrom, readLine_eq, lists]
  simp only [read, Except.map]

end Lines

/-- The list is read if the words of all its lines are, and its rows are those of the lines that list
something. -/
theorem readFrom_eq_ok {number : Nat} {lines : List (List Char)} {rows : List (Row R)} :
    readFrom w number (lines.map some) = .ok rows ↔
      List.Forall₂ (Listed.Reads w) (lines.filterMap listed?) rows := by
  induction lines generalizing number rows with
  | nil => simp [readFrom, eq_comm]
  | cons line rest ih =>
    rw [List.map_cons]
    cases lists : listed? line with
    | none => rw [readFrom_of_nothing lists, List.filterMap_cons_none lists, ih]
    | some l =>
      rw [List.filterMap_cons_some lists, List.forall₂_cons_left_iff]
      cases read : l.read w with
      | error cause =>
        rw [readFrom_of_fault lists read]
        simp [← Listed.read_eq_ok, read]
      | ok row =>
        rw [readFrom_of_row lists read]
        simp only [← Listed.read_eq_ok, read, ← @ih (number + 1)]
        cases readFrom w (number + 1) (rest.map some) <;> simp [Except.map, eq_comm]

/-- No words of a line are refused. -/
def Fine (w : Words R) (line : List Char) : Prop :=
  ∀ l, listed? line = some l → l.Sound w

/-- A line with words that are refused, below lines without such words. -/
structure FirstFault (w : Words R) (above : List (List Char)) (line : List Char)
    (cause : WordError) : Prop where
  fine : ∀ other ∈ above, Fine w other
  faulty : ∃ l, listed? line = some l ∧ l.Faulty w cause

/-- Why lines are refused, the first of which has the number given. -/
def Refused (w : Words R) (number : Nat) (lines : List (List Char)) (e : ReadError) : Prop :=
  ∃ above line below cause, lines = above ++ line :: below ∧ FirstFault w above line cause ∧
    e = .line (number + above.length) cause

section Refused

variable {number : Nat} {line : List Char} {rest : List (List Char)} {e : ReadError}

theorem refused_cons_of_fine (fine : Fine w line) :
    Refused w number (line :: rest) e ↔ Refused w (number + 1) rest e := by
  constructor
  · rintro ⟨above, other, below, cause, split, first, rfl⟩
    cases above with
    | nil =>
      obtain ⟨rfl, -⟩ := List.cons.inj split
      obtain ⟨l, lists, faulty⟩ := first.faulty
      exact absurd (fine l lists) faulty.not_sound
    | cons _ above =>
      obtain ⟨rfl, behind⟩ := List.cons.inj split
      obtain ⟨-, fine⟩ := List.forall_mem_cons.1 first.fine
      refine ⟨above, other, below, cause, behind, ⟨fine, first.faulty⟩, ?_⟩
      rw [List.length_cons, Nat.add_right_comm, Nat.add_assoc]
  · rintro ⟨above, other, below, cause, rfl, first, rfl⟩
    refine ⟨line :: above, other, below, cause, rfl, ⟨?_, first.faulty⟩, ?_⟩
    · exact List.forall_mem_cons.2 ⟨fine, first.fine⟩
    · rw [List.length_cons, Nat.add_right_comm, Nat.add_assoc]

theorem refused_cons_of_fault {l : Listed} (lists : listed? line = some l) {cause : WordError}
    (faulty : l.Faulty w cause) :
    Refused w number (line :: rest) e ↔ e = .line number cause := by
  constructor
  · rintro ⟨above, other, below, told, split, first, rfl⟩
    cases above with
    | nil =>
      obtain ⟨rfl, -⟩ := List.cons.inj split
      obtain ⟨m, same, toldFaulty⟩ := first.faulty
      obtain rfl := Option.some.inj (lists.symm.trans same)
      have once := (Listed.read_eq_error.2 toldFaulty).symm.trans (Listed.read_eq_error.2 faulty)
      rw [Except.error.inj once]
      rfl
    | cons _ above =>
      obtain ⟨rfl, -⟩ := List.cons.inj split
      exact absurd (first.fine line List.mem_cons_self l lists) faulty.not_sound
  · rintro rfl
    exact ⟨[], line, rest, cause, rfl, ⟨by simp, l, lists, faulty⟩, rfl⟩

end Refused

/-- A list that is not read is refused for the first line with words that are. -/
theorem readFrom_eq_error {number : Nat} {lines : List (List Char)} {e : ReadError} :
    readFrom w number (lines.map some) = .error e ↔ Refused w number lines e := by
  induction lines generalizing number with
  | nil => simp [readFrom, Refused]
  | cons line rest ih =>
    rw [List.map_cons]
    cases lists : listed? line with
    | none =>
      have fine : Fine w line := by simp [Fine, lists]
      rw [readFrom_of_nothing lists, refused_cons_of_fine fine, ih]
    | some l =>
      cases read : l.read w with
      | error cause =>
        rw [readFrom_of_fault lists read, refused_cons_of_fault lists (Listed.read_eq_error.1 read),
          Except.error.injEq, eq_comm]
      | ok row =>
        have fine : Fine w line := by simp [Fine, lists, Listed.sound_iff, read]
        rw [readFrom_of_row lists read, refused_cons_of_fine fine, ← ih]
        cases readFrom w (number + 1) (rest.map some) <;> simp [Except.map]

theorem read_eq_ok {lines : List (List Char)} {rows : List (Row R)} :
    read w (lines.map some) = .ok rows ↔
      List.Forall₂ (Listed.Reads w) (lines.filterMap listed?) rows :=
  readFrom_eq_ok

theorem exists_reads_iff {listing : List Listed} :
    (∃ rows, List.Forall₂ (Listed.Reads w) listing rows) ↔ ∀ l ∈ listing, l.Sound w := by
  induction listing with
  | nil => simp
  | cons l rest ih =>
    rw [List.forall_mem_cons, ← ih, Listed.sound_iff]
    simp only [List.forall₂_cons_left_iff, Listed.read_eq_ok]
    constructor
    · rintro ⟨_, row, rows, first, others, rfl⟩
      exact ⟨⟨row, first⟩, rows, others⟩
    · rintro ⟨⟨row, first⟩, rows, others⟩
      exact ⟨_, row, rows, first, others, rfl⟩

/-- A list is read if and only if no words are refused. -/
theorem exists_read_iff {lines : List (List Char)} :
    (∃ rows, read w (lines.map some) = .ok rows) ↔ ∀ line ∈ lines, Fine w line := by
  simp only [read_eq_ok, exists_reads_iff, List.mem_filterMap, Fine]
  exact ⟨fun all line member l lists => all l ⟨line, member, lists⟩,
    fun all l ⟨line, member, lists⟩ => all line member l lists⟩

theorem read_eq_error {lines : List (List Char)} {e : ReadError} :
    read w (lines.map some) = .error e ↔ Refused w 1 lines e :=
  readFrom_eq_error

/-- What is wrong with a list, wherever that is. -/
def ReadError.cause? : ReadError → Option WordError
  | line _ cause => some cause
  | encoding | unreadable _ => none

section MapError

variable {ε ε' α β : Type} (f : ε → ε') (x : Except ε α)

theorem mapError_map (g : α → β) : (x.map g).mapError f = (x.mapError f).map g := by
  cases x <;> rfl

theorem toOption_mapError : (x.mapError f).toOption = x.toOption := by
  cases x <;> rfl

end MapError

/-- But for the number of the line that is refused, all depends on what the lines list. -/
theorem mapError_readFrom (w : Words R) (number : Nat) (lines : List (List Char)) :
    (readFrom w number (lines.map some)).mapError ReadError.cause? =
      ((lines.filterMap listed?).mapM (Listed.read w)).mapError some := by
  induction lines generalizing number with
  | nil => rfl
  | cons line rest ih =>
    rw [List.map_cons]
    cases lists : listed? line with
    | none => rw [readFrom_of_nothing lists, List.filterMap_cons_none lists, ih]
    | some l =>
      rw [List.filterMap_cons_some lists, List.mapM_cons]
      cases read : l.read w with
      | error cause =>
        rw [readFrom_of_fault lists read]
        rfl
      | ok row =>
        rw [readFrom_of_row lists read, mapError_map, ih, ← mapError_map]
        rfl

/-- Lists that list the same are read alike, or refused for the same reason. -/
theorem mapError_read_congr (w : Words R) {lines others : List (List Char)}
    (same : lines.filterMap listed? = others.filterMap listed?) :
    (read w (lines.map some)).mapError ReadError.cause? =
      (read w (others.map some)).mapError ReadError.cause? := by
  rw [read, read, mapError_readFrom, mapError_readFrom, same]

end TieredCompaction.TableList
