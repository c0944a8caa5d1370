import TieredCompaction.Meter
/-!
Tables and the shelf that keeps what all copies of a table share: its meter and whether it has left
a store.
-/
namespace TieredCompaction

/-- A table, known by its ID. `place` is where the shelf keeps its shared part. -/
structure Table where
  id : Nat
  size : Nat
  place : Nat
  deriving DecidableEq, Repr

structure Descriptor where
  generation : Nat
  size : Nat
  deriving DecidableEq, Repr

namespace Table

def same (a b : Table) : Bool :=
  a.id == b.id

def descriptor (t : Table) : Descriptor :=
  { generation := t.id, size := t.size }

def detail (t : Table) : String :=
  s!"Table:{t.id}({t.size}B)"

/-- Order by size, and by ID among tables of one size. -/
def sizeLe (a b : Table) : Bool :=
  a.size < b.size || (a.size == b.size && a.id ≤ b.id)

end Table

def bracketed (items : List String) : String :=
  "[" ++ String.intercalate ", " items ++ "]"

structure Holding (R : Type) where
  meter : Meter R
  retired : Bool

structure Shelf (R : Type) where
  holdings : Array (Holding R)

namespace Shelf

variable {R : Type} [Quantity R]

def empty : Shelf R :=
  { holdings := #[] }

def add (s : Shelf R) (id size : Nat) (meter : Meter R) : Table × Shelf R :=
  ({ id, size, place := s.holdings.size },
    { s with holdings := s.holdings.push { meter, retired := false } })

def meter? (s : Shelf R) (t : Table) : Option (Meter R) :=
  (s.holdings[t.place]?).map (·.meter)

/-- Whether a table has left a store that it was in. -/
def isRetired (s : Shelf R) (t : Table) : Bool :=
  (s.holdings[t.place]?).any (·.retired)

/-- The short-term read rate of a table. Its meter stays as it is, unlike with `Meter.sample`. -/
def hotness (s : Shelf R) (now : Int) (t : Table) : R :=
  match s.meter? t with
  | some meter => meter.rate .short now
  | none => Quantity.ofNat 0

def readCount (s : Shelf R) (t : Table) : Nat :=
  match s.meter? t with
  | some meter => meter.count
  | none => 0

def retire (s : Shelf R) (t : Table) : Shelf R :=
  { s with holdings := s.holdings.modify t.place fun h => { h with retired := true } }

def updateMeter (s : Shelf R) (t : Table) (f : Meter R → Meter R) : Shelf R :=
  { s with holdings := s.holdings.modify t.place fun h => { h with meter := f h.meter } }

end Shelf

end TieredCompaction
