import TieredCompaction.CommandLine.TableList
import TieredCompaction.Selection
import TieredCompaction.Size.Printing
/-!
The plan for a list of tables: its buckets, those that a job could take, the tables of the next
job, and how many jobs are due.
-/
namespace TieredCompaction

structure Plan (R : Type) where
  tables : List Table
  buckets : List (Bucket Table)
  ranked : List (Trimmed Table R)
  due : Nat

namespace Plan

/-- Puts listed tables on a shelf, as restored with their rates; IDs count from zero. -/
def shelve {R : Type} [Quantity R] (given : R → GivenRate R) (now : Int)
    (rows : List (TableList.Row R)) : Shelf R × List Table :=
  rows.foldl
    (fun (shelf, tables) row =>
      let rate := given row.rate
      let (t, shelf) := shelf.add tables.length row.size ((Meter.fresh now).restore rate rate now)
      (shelf, tables ++ [t]))
    (.empty, [])

variable {R : Type} [Quantity R]

/-- The plan for tables on a shelf, which are looked at by size and ID. -/
def make (o : Options R) (t : Thresholds) (shelf : Shelf R) (now : Int) (tables : List Table) :
    Plan R :=
  let tables := sortBy Table.sizeLe tables
  let buckets := o.tableBuckets tables
  { tables
    buckets
    ranked := TieredCompaction.ranked (shelf.hotness now) t.least t.greatest buckets
    due := o.estimate t tables }

def chosen (p : Plan R) : Option (List Nat) :=
  p.ranked.head?.map fun top => top.items.map (·.id)

def ids (ns : List Nat) : String :=
  bracketed (ns.map toString)

def bucketLine (index : Nat) (b : Bucket Table) : String :=
  s!"  #{index}: {b.length} tables, avg {Size.text b.average}: {ids (b.items.map (·.id))}"

def rankedLine (index : Nat) (t : Trimmed Table Float) : String :=
  s!"  #{index}: hotness {Decimal.fixed 3 t.hotness}, {t.members.length} tables, " ++
    s!"avg {Size.text t.average}"

def lines (p : Plan Float) : List String :=
  let total := sumBy Table.size p.tables % UInt64.size
  [s!"tables: {p.tables.length} ({Size.text total})", "buckets:"] ++
    p.buckets.mapIdx bucketLine ++
    ["actionable:"] ++
    p.ranked.mapIdx rankedLine ++
    ["chosen: " ++ (match p.chosen with | some ns => ids ns | none => "nothing"),
      s!"pending: {p.due}"]

end Plan

end TieredCompaction
