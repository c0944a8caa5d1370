import TieredCompaction.Decimal.Reading
import TieredCompaction.Size.Reading
import TieredCompaction.Text.Blank
import TieredCompaction.Text.Lines
/-!
Lists of tables, one to a line: a size and, behind blanks, a read rate. A `#` starts a comment,
blank lines do not count, and further words are passed over.
-/
namespace TieredCompaction.TableList

structure Row (R : Type) where
  size : Nat
  rate : R

inductive WordError where
  | size (cause : Size.ReadError)
  | rate
  deriving DecidableEq, Repr

def WordError.message : WordError → String
  | size cause => cause.message
  | rate => "invalid float literal"

/-- Why a list is refused. Lines are counted from one. -/
inductive ReadError where
  | line (number : Nat) (cause : WordError)
  | encoding
  | unreadable (why : String)
  deriving DecidableEq, Repr

def ReadError.message : ReadError → String
  | line number cause => s!"line {number}: {cause.message}"
  | encoding => "stream did not contain valid UTF-8"
  | unreadable why => why

/-- How sizes and rates are read, and the rate of a table without one. -/
structure Words (R : Type) where
  size : List Char → Except Size.ReadError Nat
  rate : List Char → Option R
  noRate : R

def Words.standard : Words Float :=
  { size := Size.read, rate := Decimal.readNumber, noRate := 0 }

variable {R : Type}

/-- The table of a line, if there is one. -/
def readLine (w : Words R) (line : List Char) : Except WordError (Option (Row R)) :=
  match Text.words (Text.before '#' line) with
  | [] => .ok none
  | size :: rest =>
    match w.size size with
    | .error cause => .error (.size cause)
    | .ok size =>
      match rest with
      | [] => .ok (some { size, rate := w.noRate })
      | rate :: _ =>
        match w.rate rate with
        | some rate => .ok (some { size, rate })
        | none => .error .rate

/-- The tables of lines, the first of which has the number given. A line that is no text ends the
list with an error, and so does the first line that is no table. -/
def readFrom (w : Words R) (number : Nat) : List (Option (List Char)) →
    Except ReadError (List (Row R))
  | [] => .ok []
  | none :: _ => .error .encoding
  | some line :: rest =>
    match readLine w line with
    | .error cause => .error (.line number cause)
    | .ok row? =>
      match readFrom w (number + 1) rest with
      | .error e => .error e
      | .ok rows => .ok (row?.toList ++ rows)

def read (w : Words R) (lines : List (Option (List Char))) : Except ReadError (List (Row R)) :=
  readFrom w 1 lines

end TieredCompaction.TableList
