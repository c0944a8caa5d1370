import TieredCompaction.Quantity
import TieredCompaction.Failure
import TieredCompaction.Text.Blank
import TieredCompaction.Decimal.Reading
import TieredCompaction.Sorting
/-!
How alike the tables of a bucket have to be, and how many of them make a job. Options are read from
and written to maps of strings.
-/
namespace TieredCompaction

/-- A table joins a bucket whose average size, times `low` and times `high`, encloses its size, or
one whose average is below `minSize` along with its size. -/
structure Options (R : Type) where
  low : R
  high : R
  minSize : Nat

namespace Options

/-- Half to one and a half times the average, and everything below 50 MiB in one bucket. -/
def standard : Options Float :=
  { low := 0.5, high := 1.5, minSize := 50 * 1024 * 1024 }

def lowKey : String := "bucket_low"
def highKey : String := "bucket_high"
def minSizeKey : String := "min_sstable_size"

/-- Whether `low` lies strictly between zero and one. -/
def lowInRange (low : Float) : Bool :=
  0 < low && low < 1

/-- Whether `high` is above one and finite. -/
def highInRange (high : Float) : Bool :=
  1 < high && high.isFinite

/-- Refuses factors out of range, the lower one first. -/
def make (low high : Float) (minSize : Nat) : Except ConfigError (Options Float) :=
  if lowInRange low then
    if highInRange high then .ok { low, high, minSize }
    else .error (.outOfRange highKey (Quantity.text high))
  else .error (.outOfRange lowKey (Quantity.text low))

/-- Puts one setting into the options. Blanks around a value do not count. -/
def set (o : Options Float) (key value : String) : Except ConfigError (Options Float) :=
  let text := Text.trim value.toList
  if key = lowKey then
    match Decimal.readNumber text with
    | some low => .ok { o with low }
    | none => .error (.unparseable key value)
  else if key = highKey then
    match Decimal.readNumber text with
    | some high => .ok { o with high }
    | none => .error (.unparseable key value)
  else if key = minSizeKey then
    match Decimal.readWord text with
    | some minSize => .ok { o with minSize }
    | none => .error (.unparseable key value)
  else .error (.unknownOption key)

/-- The options that a map gives, where missing settings have their standard value. Ranges are
checked after all settings are read. -/
def ofSettings (settings : List (String × String)) : Except ConfigError (Options Float) := do
  let o ← settings.foldlM (fun o (key, value) => o.set key value) standard
  make o.low o.high o.minSize

def settings {R : Type} [Quantity R] (o : Options R) : List (String × String) :=
  [(lowKey, Quantity.text o.low), (highKey, Quantity.text o.high),
    (minSizeKey, toString o.minSize)]

def sortedSettings {R : Type} [Quantity R] (o : Options R) : List (String × String) :=
  sortBy (fun x y => x.1 ≤ y.1) o.settings

def detail (o : Options Float) : String :=
  shown "SizeTieredOptions"
    [(lowKey, NumberStyle.detailed.text o.low), (highKey, NumberStyle.detailed.text o.high),
      (minSizeKey, toString o.minSize)]

/-- Options are standard if their numbers are equal to the standard ones. -/
def isStandard (o : Options Float) : Bool :=
  o.low == standard.low && o.high == standard.high && o.minSize == standard.minSize

end Options

structure Thresholds where
  least : Nat
  greatest : Nat
  two_le_least : 2 ≤ least := by decide
  least_le_greatest : least ≤ greatest := by decide
  deriving DecidableEq

namespace Thresholds

def standard : Thresholds :=
  { least := 4, greatest := 32 }

def make (least greatest : Nat) : Except ConfigError Thresholds :=
  if h : 2 ≤ least ∧ least ≤ greatest then
    .ok { least, greatest, two_le_least := h.1, least_le_greatest := h.2 }
  else .error (.invalidThresholds least greatest)

def detail (t : Thresholds) : String :=
  shown "Thresholds" [("min_threshold", toString t.least), ("max_threshold", toString t.greatest)]

end Thresholds

end TieredCompaction
