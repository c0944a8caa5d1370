import TieredCompaction.Bucket
import TieredCompaction.Sorting
/-!
How hot a bucket is: the sum of the read rates of its hottest members, as many as a job may hold.
Buckets with enough members are ranked by it.
-/
namespace TieredCompaction

variable {α : Type} {R : Type} [Quantity R]

/-- The members of a bucket that a job would take, hottest first, and the sum of their rates. -/
structure Trimmed (α R : Type) where
  members : List (α × Nat)
  hotness : R

namespace Trimmed

def items (t : Trimmed α R) : List α :=
  t.members.map (·.1)

/-- The average size of the members, rounded down. Their sizes are taken to add up to less than
`2 ^ 64`; what an overflow would do is left open. -/
def average (t : Trimmed α R) : Nat :=
  sumBy (·.2) t.members / max t.members.length 1

end Trimmed

def sumRates (rates : List R) : R :=
  rates.foldl (· + ·) Quantity.emptySum

/-- The members with their rates, by descending rate; members of one rate keep their order. -/
def hottestFirst (rate : α → R) (members : List (α × Nat)) : List ((α × Nat) × R) :=
  sortBy (fun x y => Quantity.rankLe y.2 x.2) (members.map fun member => (member, rate member.1))

/-- The hottest members of a bucket, at most `limit` of them. -/
def Bucket.trim (rate : α → R) (limit : Nat) (b : Bucket α) : Trimmed α R :=
  let kept := (hottestFirst rate b.members).take limit
  { members := kept.map (·.1), hotness := sumRates (kept.map (·.2)) }

/-- The order of choice: hotter ones first; among equally hot ones those with more members, and
among these the ones of smaller tables. -/
def Trimmed.before (x y : Trimmed α R) : Bool :=
  if !Quantity.rankLe x.hotness y.hotness then true
  else if !Quantity.rankLe y.hotness x.hotness then false
  else if x.members.length ≠ y.members.length then y.members.length < x.members.length
  else x.average ≤ y.average

/-- The buckets of at least `least` members, trimmed to `greatest`, in the order of choice; those
of one rank keep their order. -/
def ranked (rate : α → R) (least greatest : Nat) (buckets : List (Bucket α)) :
    List (Trimmed α R) :=
  sortBy Trimmed.before ((buckets.filter (least ≤ ·.length)).map (·.trim rate greatest))

end TieredCompaction
