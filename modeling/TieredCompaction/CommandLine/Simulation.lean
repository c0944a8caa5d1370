import TieredCompaction.Compactor.Operations
import TieredCompaction.Size.Printing
/-!
A simulated store: tables of one size are flushed one after the other, and jobs are merged at once.
-/
namespace TieredCompaction.Simulation

def store : StoreName :=
  { keyspace := "simulation", table := "table" }

variable {R : Type} [Quantity R]

def start (o : Options R) (t : Thresholds) (clock : Clock) : Site R :=
  let site : Site R :=
    { compactor := { store, options := o, thresholds := t, intake := .merge }
      counters := {}
      ids := ⟨0⟩
      shelf := .empty
      clock
      notices := [] }
  site.enable.1

def hush (level : Nat) (s : Site R) : Site R :=
  { s with notices := s.notices.filter (·.level.rank ≤ level) }

def flushOne (size : Nat) (s : Site R) : Site R :=
  let (id, s) := s.drawId
  let (t, s) := s.makeTable id size
  s.flush [t]

def run (o : Options R) (t : Thresholds) (clock : Clock) (level flushes size : Nat) : Site R :=
  flushes.repeat (fun s => hush level (flushOne size s)) (hush level (start o t clock))

/-- What is left in the end, the greatest tables first. -/
def lines (s : Site Float) (flushSize : Nat) : List String :=
  let c := s.counters
  let tables := (sortBy Table.sizeLe s.compactor.tables.live).reverse
  [s!"flushed {c.tablesFlushed} tables of {Size.text flushSize}, ran {c.completed} compactions " ++
      s!"(write amp {Decimal.fixed 2 c.writeAmplification})",
    s!"tables: {tables.length}"] ++
    tables.map fun t => s!"  {t.id}: {Size.text t.size}"

end TieredCompaction.Simulation
