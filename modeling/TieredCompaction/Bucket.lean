import TieredCompaction.Options
/-!
Bucketing. Items are taken in order; each goes into the first bucket that accepts its size, or
starts a new bucket behind the others. Items of size zero are left out.
-/
namespace TieredCompaction

variable {α : Type} {R : Type} [Quantity R]

/-- Items of similar size, with the sum of their sizes. -/
structure Bucket (α : Type) where
  members : List (α × Nat)
  total : Nat
  deriving DecidableEq, Repr

def sumBy (f : α → Nat) (items : List α) : Nat :=
  items.foldr (fun item sum => f item + sum) 0

namespace Bucket

/-- The greatest sum of sizes that a bucket keeps. -/
def maxTotal : Nat := UInt64.size - 1

def single (member : α × Nat) : Bucket α :=
  { members := [member], total := member.2 }

/-- Adds a member at the end. The total stops at the greatest sum. -/
def push (b : Bucket α) (member : α × Nat) : Bucket α :=
  { members := b.members ++ [member], total := min (b.total + member.2) maxTotal }

def length (b : Bucket α) : Nat :=
  b.members.length

def items (b : Bucket α) : List α :=
  b.members.map (·.1)

def sizes (b : Bucket α) : List Nat :=
  b.members.map (·.2)

/-- The average size, rounded down. -/
def average (b : Bucket α) : Nat :=
  b.total / max b.length 1

end Bucket

namespace Options

/-- Whether a size lies between the two multiples of an average. -/
def similar (o : Options R) (average size : Nat) : Bool :=
  let average : R := Quantity.ofNat average
  let size : R := Quantity.ofNat size
  Quantity.le (average * o.low) size && Quantity.le size (average * o.high)

/-- Whether a bucket with the given average takes in a size: the two are similar, or both are
small. -/
def accepts (o : Options R) (average size : Nat) : Bool :=
  o.similar average size || (size < o.minSize && average < o.minSize)

/-- Puts an item into the first bucket that accepts it. -/
def place (o : Options R) : List (Bucket α) → α × Nat → List (Bucket α)
  | [], member => [.single member]
  | b :: rest, member =>
    if o.accepts b.average member.2 then b.push member :: rest else b :: o.place rest member

/-- The buckets of a list of items with their sizes, in the order in which they were started. -/
def buckets (o : Options R) (items : List (α × Nat)) : List (Bucket α) :=
  (items.filter (·.2 ≠ 0)).foldl o.place []

end Options

end TieredCompaction
