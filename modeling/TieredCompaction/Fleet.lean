import TieredCompaction.Compactor.Operations
/-!
Several compactors that may share counters, sources of IDs and tables. A compactor is reached
through handles and goes away with the last of them; its jobs outlive it, and resolving them then
changes nothing but their queue.
-/
namespace TieredCompaction

/-- A compactor, and where the fleet keeps its counters and its source of IDs. -/
structure Member (R : Type) where
  compactor : Compactor R
  cell : Nat
  source : Nat

/-- A way to a compactor, until it is released. -/
structure Handle where
  member : Nat
  held : Bool
  deriving DecidableEq, Repr

structure Fleet (R : Type) where
  members : List (Member R)
  handles : List Handle
  cells : List Counters
  sources : List IdSource
  registry : Registry
  shelf : Shelf R
  clock : Clock
  notices : List (Notice R)

/-- How a compactor is set up. -/
structure Opening (R : Type) where
  store : StoreName
  options : Options R
  thresholds : Thresholds
  intake : Intake
  /-- Whether it uses the counters that the registry has for its store. -/
  registered : Bool
  /-- The source of IDs, if it is a shared one. -/
  source : Option Nat

/-- A new compactor: disabled, without tables and jobs. -/
def Opening.compactor {R : Type} (o : Opening R) : Compactor R :=
  { store := o.store, options := o.options, thresholds := o.thresholds, intake := o.intake }

namespace Fleet

variable {R : Type} [Quantity R]

/-- No compactors, and one source of IDs for those that share it. -/
def empty (clock : Clock) (shared : IdSource) : Fleet R :=
  { members := []
    handles := []
    cells := []
    sources := [shared]
    registry := .empty
    shelf := .empty
    clock
    notices := [] }

/-- The counters that the registry has for a store, new ones if it has none. -/
def counted (f : Fleet R) (store : StoreName) : Nat × Fleet R :=
  match f.registry.cell? store with
  | some cell => (cell, f)
  | none =>
    let cell := f.cells.length
    (cell, { f with cells := f.cells ++ [{}], registry := f.registry.enter store cell })

def cellFor (f : Fleet R) (o : Opening R) : Nat × Fleet R :=
  if o.registered then f.counted o.store
  else (f.cells.length, { f with cells := f.cells ++ [{}] })

def sourceFor (f : Fleet R) (o : Opening R) : Nat × Fleet R :=
  match o.source with
  | some source => (source, f)
  | none => (f.sources.length, { f with sources := f.sources ++ [⟨0⟩] })

def enroll (f : Fleet R) (o : Opening R) : Fleet R :=
  let (cell, f) := f.cellFor o
  let (source, f) := f.sourceFor o
  { f with
    members := f.members ++ [{ compactor := o.compactor, cell, source }]
    handles := f.handles ++ [{ member := f.members.length, held := true }]
    notices := f.notices ++ [.opened o.store] }

def isHeld (f : Fleet R) (member : Nat) : Bool :=
  f.handles.any fun h => h.member == member && h.held

def siteOf (f : Fleet R) (m : Member R) : Site R :=
  { compactor := m.compactor
    counters := f.cells.getD m.cell {}
    ids := f.sources.getD m.source ⟨0⟩
    shelf := f.shelf
    clock := f.clock
    notices := f.notices }

def putBack (f : Fleet R) (member : Nat) (m : Member R) (s : Site R) : Fleet R :=
  { f with
    members := f.members.set member { m with compactor := s.compactor }
    cells := f.cells.set m.cell s.counters
    sources := f.sources.set m.source s.ids
    shelf := s.shelf
    notices := s.notices }

def act {α : Type} (f : Fleet R) (member : Nat) (operation : Site R → Site R × α) :
    Option (Fleet R × α) :=
  (f.members[member]?).map fun m =>
    let (s, result) := operation (f.siteOf m)
    (f.putBack member m s, result)

def change (f : Fleet R) (member : Nat) (operation : Site R → Site R) : Fleet R :=
  match f.act member fun s => (operation s, ()) with
  | some (f, _) => f
  | none => f

def duplicate (f : Fleet R) (handle : Handle) : Fleet R :=
  { f with handles := f.handles ++ [{ handle with held := true }] }

/-- Lets go of a handle. With the last one the compactor goes away. -/
def release (f : Fleet R) (index : Nat) : Fleet R :=
  match f.handles[index]? with
  | none => f
  | some handle =>
    if handle.held then
      let f := { f with handles := f.handles.set index { handle with held := false } }
      if f.isHeld handle.member then f
      else f.change handle.member fun s => s.note (.closed s.compactor.store)
    else f

/-- Puts a table on the shelf. Without an ID it gets the next one of the member's source. -/
def addTable (f : Fleet R) (member : Nat) (id? : Option Nat) (size : Nat) (meter : Meter R) :
    Option (Table × Fleet R) :=
  (f.act member fun s =>
    let (id, s) := match id? with
      | some id => (id, s)
      | none => s.drawId
    let (t, shelf) := s.shelf.add id size meter
    ({ s with shelf }, t)).map fun (f, t) => (t, f)

def completeJob (f : Fleet R) (member : Nat) (job : Job R) (outputs : List Table) : Fleet R :=
  f.change member fun s =>
    if f.isHeld member then s.completeJob job outputs else s.completeLate job

def failJob (f : Fleet R) (member : Nat) (job : Job R) (cause : Failure) : Fleet R :=
  f.change member fun s => if f.isHeld member then s.failJob job cause else s.failLate job

def dropJob (f : Fleet R) (member : Nat) (job : Job R) : Fleet R :=
  f.change member fun s => if f.isHeld member then s.dropJob job else s.withdraw job.id

def mergeJob (f : Fleet R) (member : Nat) (job : Job R) : Fleet R :=
  f.change member fun s => if f.isHeld member then s.mergeJob job else s.mergeLate job

def waiting (f : Fleet R) (member : Nat) : List (Job R) :=
  match f.members[member]? with
  | some m => m.compactor.waiting
  | none => []

/-- Merges the waiting jobs of a member until none waits, and counts the merges. -/
def drain (f : Fleet R) (member : Nat) : Option (Fleet R × Nat) :=
  f.act member fun s => if f.isHeld member then s.drain else s.drainBy Site.mergeLate

end Fleet

end TieredCompaction
