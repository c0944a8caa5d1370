import TieredCompaction.Selection
import TieredCompaction.Calendar
/-!
Merge jobs, and how a store's queue deals with a job that is handed to it.
-/
namespace TieredCompaction

/-- Tables to be merged, hottest first. -/
structure Job (R : Type) where
  id : Nat
  tables : List Table
  hotness : R
  startedAt : Moment

namespace Job

/-- The size of the table that a merge of the job gives. The sizes are taken to add up to less than
`2 ^ 64`, as a size has to. -/
def inputSize {R : Type} (j : Job R) : Nat :=
  sumBy Table.size j.tables

def detail (j : Job Float) : String :=
  s!"MergeTask#{j.id}({bracketed (j.tables.map Table.detail)}, hotness={Decimal.fixed 3 j.hotness})"

end Job

/-- What a queue does with a job before it returns. To report other outputs or a failure there is the
same as to keep the job and to resolve it right after (`Site.passAnswering_eq`). -/
inductive Intake where
  | keep
  | merge
  | drop
  deriving DecidableEq, Repr

/-- Where IDs of tables come from. They are drawn in ascending order, modulo `2 ^ 64`. -/
structure IdSource where
  next : Nat
  deriving DecidableEq, Repr

namespace IdSource

def draw (s : IdSource) : Nat × IdSource :=
  (s.next, { next := (s.next + 1) % UInt64.size })

/-- Makes sure that IDs below `id` are not drawn again. -/
def raise (s : IdSource) (id : Nat) : IdSource :=
  { next := max s.next id }

end IdSource

end TieredCompaction
