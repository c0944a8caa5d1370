import TieredCompaction.Table
import TieredCompaction.Sorting
/-!
The live tables of a store, and which of them are in flight: inputs of a job that is not resolved.
The order in which live tables are kept has no meaning.
-/
namespace TieredCompaction

/-- Live tables, no two with one ID, and the IDs of those in flight. -/
structure TableSet where
  live : List Table
  hidden : List Nat
  deriving DecidableEq, Repr

namespace TableSet

def empty : TableSet :=
  { live := [], hidden := [] }

def isLive (s : TableSet) (id : Nat) : Bool :=
  s.live.any (·.id == id)

def isHidden (s : TableSet) (id : Nat) : Bool :=
  s.hidden.contains id

/-- Adds a table, unless its ID is live already. -/
def add? (s : TableSet) (t : Table) : Option TableSet :=
  if s.isLive t.id then none else some { s with live := s.live ++ [t] }

inductive Reception where
  | added
  | empty
  | alreadyLive
  deriving DecidableEq, Repr

/-- Takes in tables one by one, and tells for each what became of it. Empty tables and those with
a live ID stay out. -/
def receive (s : TableSet) : List Table → TableSet × List (Table × Reception)
  | [] => (s, [])
  | t :: rest =>
    let (s, outcome) : TableSet × Reception :=
      if t.size = 0 then (s, .empty)
      else match s.add? t with
        | some s => (s, .added)
        | none => (s, .alreadyLive)
    let (s, outcomes) := s.receive rest
    (s, (t, outcome) :: outcomes)

def added (outcomes : List (Table × Reception)) : List Table :=
  (outcomes.filter (·.2 == .added)).map (·.1)

/-- Takes the tables with the ID of `t` out of both sets. -/
def remove (s : TableSet) (t : Table) : TableSet :=
  { live := s.live.filter (·.id != t.id), hidden := s.hidden.filter (· != t.id) }

/-- Takes tables out one by one. The result also lists the live tables that were removed, which
need not be the ones passed. -/
def removeAll (s : TableSet) : List Table → TableSet × List Table
  | [] => (s, [])
  | t :: rest =>
    let removed := s.live.filter (·.id == t.id)
    let (s, others) := (s.remove t).removeAll rest
    (s, removed ++ others)

/-- The tables that a job may take: live, not empty and not in flight, by size and ID. -/
def candidates (s : TableSet) : List Table :=
  sortBy Table.sizeLe (s.live.filter fun t => 0 < t.size && !s.isHidden t.id)

/-- Puts tables in flight, unless one of them is already. -/
def hide? (s : TableSet) (tables : List Table) : Option TableSet :=
  if tables.any (s.isHidden ·.id) then none
  else some { s with hidden := s.hidden ++ (tables.map (·.id)).eraseDups }

def unhide (s : TableSet) (tables : List Table) : TableSet :=
  { s with hidden := s.hidden.filter fun id => !tables.any (·.id == id) }

def byId (s : TableSet) : List Table :=
  sortBy (fun a b => a.id ≤ b.id) s.live

end TableSet

end TieredCompaction
