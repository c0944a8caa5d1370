import TieredCompaction.Failure
import TieredCompaction.Text.Json
import TieredCompaction.Sorting
/-!
Names of stores, and the counters kept for each. A registry hands out one set of counters per name.
-/
namespace TieredCompaction

open Text (Json quoted)

/-- The name of a store: a table of a keyspace. -/
structure StoreName where
  keyspace : String
  table : String
  deriving DecidableEq, Repr

namespace StoreName

def text (s : StoreName) : String :=
  s.keyspace ++ "." ++ s.table

def detail (s : StoreName) : String :=
  shown "StoreId" [("keyspace", quoted s.keyspace), ("table", quoted s.table)]

def fields (s : StoreName) : List (String × Json) :=
  [("keyspace", .string s.keyspace), ("table", .string s.table)]

def toJson (s : StoreName) : Json :=
  .object s.fields

def le (a b : StoreName) : Bool :=
  a.keyspace < b.keyspace || (a.keyspace == b.keyspace && a.table ≤ b.table)

end StoreName

/-- What is counted for a store. Sums of bytes are kept modulo `2 ^ 64`. -/
structure Counters where
  flushes : Nat := 0
  tablesFlushed : Nat := 0
  submitted : Nat := 0
  completed : Nat := 0
  failed : Nat := 0
  bytesIn : Nat := 0
  bytesOut : Nat := 0
  /-- The merges due as of the last evaluation. -/
  pending : Nat := 0
  deriving DecidableEq, Repr

namespace Counters

def running (c : Counters) : Nat :=
  c.submitted - c.completed - c.failed

def writeAmplification (c : Counters) : Float :=
  if c.bytesIn = 0 then 0
  else (UInt64.ofNat c.bytesOut).toFloat / (UInt64.ofNat c.bytesIn).toFloat

def flushed (c : Counters) (tables : Nat) : Counters :=
  { c with flushes := c.flushes + 1, tablesFlushed := c.tablesFlushed + tables }

def merged (c : Counters) (bytesIn bytesOut : Nat) : Counters :=
  { c with
    completed := c.completed + 1
    bytesIn := (c.bytesIn + bytesIn) % UInt64.size
    bytesOut := (c.bytesOut + bytesOut) % UInt64.size }

end Counters

/-- Which counters belong to which store. Counters are kept in numbered cells, so that several
owners can share them. -/
structure Registry where
  cells : List (StoreName × Nat)

namespace Registry

def empty : Registry :=
  { cells := [] }

def cell? (r : Registry) (store : StoreName) : Option Nat :=
  r.cells.lookup store

def enter (r : Registry) (store : StoreName) (cell : Nat) : Registry :=
  { r with cells := r.cells ++ [(store, cell)] }

def stores (r : Registry) : List StoreName :=
  sortBy StoreName.le (r.cells.map (·.1))

end Registry

end TieredCompaction
