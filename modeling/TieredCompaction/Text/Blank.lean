/-!
White space and what is cut at it. Cutting a text into words loses and invents nothing but blanks
(`flatten_words`); a word ends at each blank (`words_append_blank`) and nowhere else
(`words_of_no_blank`).
-/
namespace TieredCompaction.Text

/-- The 25 characters of white space, wherever they stand in the code space. -/
def isBlank (c : Char) : Bool :=
  let n := c.toNat
  (0x09 ≤ n && n ≤ 0x0d) || n == 0x20 || n == 0x85 || n == 0xa0 || n == 0x1680 ||
    (0x2000 ≤ n && n ≤ 0x200a) || n == 0x2028 || n == 0x2029 || n == 0x202f || n == 0x205f ||
    n == 0x3000

def trim (s : List Char) : List Char :=
  ((s.dropWhile isBlank).reverse.dropWhile isBlank).reverse

/-- The word that `s` starts with, and what follows the words of `s`. -/
private def wordsFrom : List Char → List Char × List (List Char)
  | [] => ([], [])
  | c :: rest =>
    let (head, tail) := wordsFrom rest
    if isBlank c then ([], if head.isEmpty then tail else head :: tail) else (c :: head, tail)

/-- The maximal runs of characters that are not blank, in order. -/
def words (s : List Char) : List (List Char) :=
  let (head, tail) := wordsFrom s
  if head.isEmpty then tail else head :: tail

theorem flatten_words (s : List Char) : (words s).flatten = s.filter (!isBlank ·) := by
  have step : (wordsFrom s).1 ++ (wordsFrom s).2.flatten = s.filter (!isBlank ·) := by
    induction s with
    | nil => rfl
    | cons c rest ih =>
      by_cases blank : isBlank c
      · by_cases empty : (wordsFrom rest).1 = []
        · simp_all [wordsFrom]
        · simp_all [wordsFrom]
      · simp_all [wordsFrom]
  by_cases empty : (wordsFrom s).1 = [] <;> simp_all [words]

/-- The words before a blank and those behind it are cut apart from each other. -/
theorem words_append_blank {c : Char} (blank : isBlank c) (s rest : List Char) :
    words (s ++ c :: rest) = words s ++ words rest := by
  have step : wordsFrom (s ++ c :: rest) =
      ((wordsFrom s).1, (wordsFrom s).2 ++ words rest) := by
    induction s with
    | nil => simp [wordsFrom, words, blank]
    | cons d s ih =>
      by_cases empty : (wordsFrom s).1 = [] <;> by_cases gap : isBlank d <;>
        simp [wordsFrom, ih, empty, gap]
  by_cases empty : (wordsFrom s).1 = []
  · simp [words, step, empty]
  · simp [words, step, empty]

theorem words_of_no_blank {s : List Char} (filled : ∀ c ∈ s, isBlank c = false) (some : s ≠ []) :
    words s = [s] := by
  have whole : wordsFrom s = (s, []) := by
    clear some
    induction s with
    | nil => rfl
    | cons c rest ih =>
      obtain ⟨first, others⟩ := List.forall_mem_cons.1 filled
      simp [wordsFrom, ih others, first]
  simp [words, whole, some]

def before (stop : Char) (s : List Char) : List Char :=
  s.takeWhile (· ≠ stop)

end TieredCompaction.Text
