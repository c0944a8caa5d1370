/-!
Lines of a text or of bytes. A line ends at a line feed, which may have a carriage return before
it; what follows the last line feed is a line of its own unless it is empty.
-/
namespace TieredCompaction.Text

variable {α : Type} [DecidableEq α]

/-- Cuts at each `stop`, which ends the pieces; the last piece has none. -/
def cutAfter (stop : α) : List α → List (List α) × List α
  | [] => ([], [])
  | x :: rest =>
    let (pieces, last) := cutAfter stop rest
    if x = stop then ([] :: pieces, last)
    else match pieces with
      | [] => ([], x :: last)
      | piece :: others => ((x :: piece) :: others, last)

/-- Leaves out `last` at the end. -/
def dropLast (last : α) (xs : List α) : List α :=
  if xs.getLast? = some last then xs.dropLast else xs

/-- The lines, without what ends them. -/
def linesBy (feed back : α) (xs : List α) : List (List α) :=
  let (pieces, last) := cutAfter feed xs
  pieces.map (dropLast back) ++ (if last.isEmpty then [] else [last])

def lines (s : List Char) : List (List Char) :=
  linesBy '\n' '\r' s

/-- The lines of bytes, each as a text if its bytes are well-formed. -/
def byteLines (bytes : ByteArray) : List (Option (List Char)) :=
  (linesBy 10 13 bytes.data.toList).map fun line =>
    (String.fromUTF8? ⟨line.toArray⟩).map String.toList

end TieredCompaction.Text
