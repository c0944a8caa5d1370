import TieredCompaction.Hotness
import TieredCompaction.Table
/-!
Which tables to merge next, and how many merges are due. Both look at the same buckets: there is a
selection iff a merge is due.
-/
namespace TieredCompaction

variable {R : Type} [Quantity R]

/-- The tables of one job, hottest first, and their hotness. -/
structure Selection (R : Type) where
  tables : List Table
  hotness : R

namespace Options

def strategyName : String := "SizeTieredCompactionStrategy"
def strategyId : String := "STCS"

/-- The buckets of tables in the order given. -/
def tableBuckets (o : Options R) (tables : List Table) : List (Bucket Table) :=
  o.buckets (tables.map fun t => (t, t.size))

/-- The tables of the first bucket in the order of choice, if a bucket has enough tables. -/
def select (o : Options R) (t : Thresholds) (rate : Table → R) (tables : List Table) :
    Option (Selection R) :=
  (ranked rate t.least t.greatest (o.tableBuckets tables)).head?.map fun top =>
    { tables := top.items, hotness := top.hotness }

/-- How many jobs a bucket needs: none if it is too small. -/
def jobsDue (t : Thresholds) (b : Bucket Table) : Nat :=
  if t.least ≤ b.length then (b.length + max t.greatest 1 - 1) / max t.greatest 1 else 0

def estimate (o : Options R) (t : Thresholds) (tables : List Table) : Nat :=
  sumBy (jobsDue t) (o.tableBuckets tables)

def strategyDetail (o : Options Float) : String :=
  "SizeTiered(" ++ shown "Strategy" [("options", o.detail)] ++ ")"

end Options

def Selection.detail : Option (Selection Float) → String
  | none => "DoNothing"
  | some s =>
    "Merge(" ++ shown "Input"
      [("tables", bracketed (s.tables.map Table.detail)),
        ("hotness", NumberStyle.detailed.text s.hotness)] ++ ")"

end TieredCompaction
