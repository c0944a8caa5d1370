import TieredCompaction.Proofs.Fleet.Chores
/-!
Two compactors that share no tables, queues or IDs do not notice each other. Whatever their owners
do and in whichever order, each compactor is in the end what it is if its owner is alone. If they
use the same counters, these add up what is counted for each of them alone.
-/
namespace TieredCompaction

namespace Counters

/-- What two others have counted, added up. The merges due are not counted but set, by the last one who
looks. -/
structure Sum (c a b : Counters) : Prop where
  flushes : c.flushes = a.flushes + b.flushes
  tablesFlushed : c.tablesFlushed = a.tablesFlushed + b.tablesFlushed
  submitted : c.submitted = a.submitted + b.submitted
  completed : c.completed = a.completed + b.completed
  failed : c.failed = a.failed + b.failed
  bytesIn : c.bytesIn = (a.bytesIn + b.bytesIn) % UInt64.size
  bytesOut : c.bytesOut = (a.bytesOut + b.bytesOut) % UInt64.size

/-- What is read off counters, given what is counted alone: the same, or the sum with what another
one counts if the counters are shared. -/
def Beside (shared : Bool) (other c a : Counters) : Prop :=
  if shared then c.Sum a other else c = a

theorem Sum.symm {c a b : Counters} (sum : c.Sum a b) : c.Sum b a where
  flushes := sum.flushes.trans (Nat.add_comm _ _)
  tablesFlushed := sum.tablesFlushed.trans (Nat.add_comm _ _)
  submitted := sum.submitted.trans (Nat.add_comm _ _)
  completed := sum.completed.trans (Nat.add_comm _ _)
  failed := sum.failed.trans (Nat.add_comm _ _)
  bytesIn := by rw [sum.bytesIn, Nat.add_comm]
  bytesOut := by rw [sum.bytesOut, Nat.add_comm]

private theorem add_mod_right (a b n size : Nat) :
    ((a + b) % size + n) % size = ((a + n) % size + b) % size := by
  rw [Nat.mod_add_mod, Nat.mod_add_mod, Nat.add_right_comm]

theorem steady_sum (other : Counters) : Steady fun c a => c.Sum a other where
  flushed c a n sum := { sum with
    flushes := by simp only [flushed, sum.flushes, Nat.add_right_comm]
    tablesFlushed := by simp only [flushed, sum.tablesFlushed, Nat.add_right_comm] }
  merged c a bytesIn bytesOut sum := { sum with
    completed := by simp only [merged, sum.completed, Nat.add_right_comm]
    bytesIn := by simp only [merged, sum.bytesIn, add_mod_right]
    bytesOut := by simp only [merged, sum.bytesOut, add_mod_right] }
  submitted c a sum := { sum with submitted := by simp only [sum.submitted, Nat.add_right_comm] }
  failed c a sum := { sum with failed := by simp only [sum.failed, Nat.add_right_comm] }
  pending _ _ _ sum := { sum with }

theorem steady_eq : Steady fun c a => c = a where
  flushed _ _ _ same := same ▸ rfl
  merged _ _ _ _ same := same ▸ rfl
  submitted _ _ same := same ▸ rfl
  failed _ _ same := same ▸ rfl
  pending _ _ _ same := same ▸ rfl

theorem beside_new (shared : Bool) : Beside shared {} {} {} := by
  cases shared with
  | true => exact ⟨rfl, rfl, rfl, rfl, rfl, rfl, rfl⟩
  | false => rfl

theorem steady_beside (shared : Bool) (other : Counters) : Steady (Beside shared other) := by
  cases shared with
  | true => exact steady_sum other
  | false => exact steady_eq

end Counters

section Towns

/-- An owner does something at a time. -/
structure Visit (R : Type) where
  owner : Nat
  clock : Clock
  chore : Chore R

/-- A fleet, and where the tables stand that each of the owners has made. An owner calls his tables
by the order in which he has made them. -/
structure Town (R : Type) where
  fleet : Fleet R
  places : List (List Nat)

variable {R : Type} [Quantity R]

/-- The fleet at a time. -/
def Fleet.at (f : Fleet R) (clock : Clock) : Fleet R :=
  { f with clock }

/-- The fleet after an owner has done something at a time. -/
def Fleet.visit (f : Fleet R) (clock : Clock) (member : Nat) (chore : Chore R) : Fleet R :=
  (f.at clock).enact member chore

namespace Town

/-- What an owner does, if it is with tables that he has made. Whatever is put on the shelf meanwhile
is his. -/
def take (t : Town R) (visit : Visit R) : Town R :=
  match t.places[visit.owner]? with
  | some own =>
    if visit.chore.isOwn && visit.chore.tables.all (·.place < own.length) then
      let fleet := t.fleet.visit visit.clock visit.owner (visit.chore.map (Table.at own))
      let before := t.fleet.shelf.holdings.size
      let new := List.range' before (fleet.shelf.holdings.size - before)
      { fleet, places := t.places.set visit.owner (own ++ new) }
    else t
  | none => t

def run (t : Town R) (visits : List (Visit R)) : Town R :=
  visits.foldl take t

/-- Compactors are opened where there are some sources of IDs, and no tables. -/
def opened (clock : Clock) (sources : List IdSource) (openings : List (Opening R)) : Town R :=
  { fleet := openings.foldl Fleet.enroll { (Fleet.empty clock ⟨0⟩ : Fleet R) with sources }
    places := openings.map fun _ => [] }

end Town

/-- Whether two compactors use the same counters. -/
def Opening.sharesCounters (o p : Opening R) : Bool :=
  o.registered && p.registered && o.store == p.store

/-- The visits of an owner, as of the only one. -/
def ownVisits (owner : Nat) (visits : List (Visit R)) : List (Visit R) :=
  (visits.filter (·.owner == owner)).map fun visit => { visit with owner := 0 }

end Towns

/-- A member of a fleet, where the tables of its owner stand, and the fleet that there would be if
its owner were alone. -/
structure Resident (R : Type) where
  seat : Nat
  member : Member R
  places : List Nat
  alone : Fleet R
  self : Member R

namespace Fleet

variable {R : Type}

/-- The counters of a member. -/
def countersOf (f : Fleet R) (member : Nat) : Counters :=
  match f.members[member]? with
  | some m => (f.siteOf m).counters
  | none => {}

/-- What happens at a member leaves the others as they are, and the tables at places that are not
its own. -/
structure Spares (f : Fleet R) (k : Nat) (m : Member R) (own : List Nat) (g : Fleet R) : Prop where
  members : ∀ j ≠ k, g.members[j]? = f.members[j]?
  ways : ∀ j ≠ k, g.ways j = f.ways j
  cellCount : g.cells.length = f.cells.length
  cells : ∀ cell ≠ m.cell, g.cells.getD cell {} = f.cells.getD cell {}
  sourceCount : g.sources.length = f.sources.length
  sources : ∀ source ≠ m.source, g.sources.getD source ⟨0⟩ = f.sources.getD source ⟨0⟩
  shelf : Shelf.Spares own f.shelf g.shelf

/-- There is a member with its counters and its source of IDs. -/
structure Seats (f : Fleet R) (k : Nat) (m : Member R) : Prop where
  member : f.members[k]? = some m
  cell : m.cell < f.cells.length
  source : m.source < f.sources.length

variable [Quantity R] {f : Fleet R} {k : Nat} {m : Member R}

/-- What an owner does takes place at the site of his compactor. -/
theorem Seats.visit (seats : f.Seats k m) (clock : Clock) (chore : Chore R) :
    let s := ((f.at clock).siteOf m).serve (f.isHeld k) chore
    let g := f.visit clock k chore
    let n := { m with compactor := s.compactor }
    g.Seats k n ∧ (g.siteOf n).counters = s.counters ∧ (g.siteOf n).ids = s.ids ∧
      g.shelf = s.shelf ∧ g.ways k = chore.handlesAfter (f.ways k) := by
  obtain ⟨handles, notices, after, ways⟩ := enact_eq (f := f.at clock) seats.member chore
  intro s g n
  have after : g = { (f.at clock).putBack k m s with handles, notices } := after
  rw [after]
  refine ⟨⟨?_, ?_, ?_⟩, counters_putBack (f := f.at clock) (k := k) seats.cell s,
    ids_putBack (f := f.at clock) (k := k) seats.source s, rfl, (ways k).trans (if_pos rfl)⟩
  · exact members_putBack (f := f.at clock) seats.member s
  · exact Nat.lt_of_lt_of_eq seats.cell List.length_set.symm
  · exact Nat.lt_of_lt_of_eq seats.source List.length_set.symm

theorem spares_visit (member : f.members[k]? = some m) (clock : Clock) (chore : Chore R)
    {own : List Nat} (shelf : Shelf.Spares own f.shelf (f.visit clock k chore).shelf) :
    f.Spares k m own (f.visit clock k chore) := by
  obtain ⟨handles, notices, after, ways⟩ := enact_eq (f := f.at clock) member chore
  rw [visit, after] at shelf ⊢
  exact {
    members := fun j other => members_putBack_of_ne (f := f.at clock) _ other
    ways := fun j other => (ways j).trans (if_neg other)
    cellCount := List.length_set
    cells := fun cell other => counters_putBack_of_ne (f := f.at clock) (k := k) _ other
    sourceCount := List.length_set
    sources := fun source other => ids_putBack_of_ne (f := f.at clock) (k := k) _ other
    shelf }

end Fleet

namespace Resident

variable {R : Type} {f g : Fleet R} {r q : Resident R}

/-- The compactor among others is what it is alone, with its tables at other places. -/
structure Lives (f : Fleet R) (r : Resident R) : Prop where
  joint : f.Seats r.seat r.member
  alone : r.alone.Seats 0 r.self
  compactor : r.member.compactor = r.self.compactor.map (Table.at r.places)
  within : r.self.compactor.Within r.places.length
  ids : (f.siteOf r.member).ids = (r.alone.siteOf r.self).ids
  part : Shelf.Part r.places r.alone.shelf f.shelf
  ways : f.ways r.seat = r.alone.ways 0
  orderly : (r.alone.siteOf r.self).Orderly

theorem Lives.isHeld (lives : r.Lives f) : f.isHeld r.seat = r.alone.isHeld 0 := by
  rw [f.isHeld_eq, r.alone.isHeld_eq, lives.ways]

theorem Lives.countersOf (lives : r.Lives f) :
    f.countersOf r.seat = (f.siteOf r.member).counters := by
  simp only [Fleet.countersOf, lives.joint.member]

theorem Lives.countersOf_self (lives : r.Lives f) :
    r.alone.countersOf 0 = (r.alone.siteOf r.self).counters := by
  simp only [Fleet.countersOf, lives.alone.member]

/-- At the same time, the two sites are twins. -/
theorem Lives.twin (lives : r.Lives f) {C : Counters → Counters → Prop}
    (counts : C (f.siteOf r.member).counters (r.alone.siteOf r.self).counters) (clock : Clock) :
    Site.Twin C f.shelf r.places r.places ((r.alone.at clock).siteOf r.self)
      ((f.at clock).siteOf r.member) where
  compactor := lives.compactor
  within := lives.within
  counters := counts
  ids := lives.ids
  clock := rfl
  part := lives.part
  spares := .refl _ _
  grown := by simp [Fleet.siteOf, Fleet.at]

/-- Somebody else's doings are not noticed. -/
theorem Lives.spared (lives : q.Lives f) {k : Nat} {m : Member R} {own : List Nat}
    (spares : f.Spares k m own g) (seat : q.seat ≠ k) (source : q.member.source ≠ m.source)
    (places : own.Disjoint q.places) : q.Lives g where
  joint.member := (spares.members _ seat).trans lives.joint.member
  joint.cell := spares.cellCount ▸ lives.joint.cell
  joint.source := spares.sourceCount ▸ lives.joint.source
  alone := lives.alone
  compactor := lives.compactor
  within := lives.within
  ids := (spares.sources _ source).trans lives.ids
  part := lives.part.congr fun place mine =>
    spares.shelf.same place (lives.part.inside mine) fun other => places other mine
  ways := (spares.ways _ seat).trans lives.ways
  orderly := lives.orderly

variable [Quantity R]

/-- After its owner has done the same in both fleets. -/
def after (r : Resident R) (f : Fleet R) (clock : Clock) (chore : Chore R) : Resident R :=
  let held := r.alone.isHeld 0
  let s := ((f.at clock).siteOf r.member).serve held (chore.map (Table.at r.places))
  let t := ((r.alone.at clock).siteOf r.self).serve held chore
  let g := f.visit clock r.seat (chore.map (Table.at r.places))
  let before := f.shelf.holdings.size
  { r with
    member := { r.member with compactor := s.compactor }
    places := r.places ++ List.range' before (g.shelf.holdings.size - before)
    alone := r.alone.visit clock 0 chore
    self := { r.self with compactor := t.compactor } }

/-- What the owner does among others is what he does alone. -/
theorem Lives.visit (lives : r.Lives f) {C : Counters → Counters → Prop}
    (steady : Counters.Steady C)
    (counts : C (f.siteOf r.member).counters (r.alone.siteOf r.self).counters) (clock : Clock)
    {chore : Chore R} (own : chore.isOwn = true)
    (named : ∀ x ∈ chore.tables, x.place < r.places.length) :
    let g := f.visit clock r.seat (chore.map (Table.at r.places))
    let q := r.after f clock chore
    q.Lives g ∧ C (g.siteOf q.member).counters (q.alone.siteOf q.self).counters ∧
      f.Spares r.seat r.member r.places g := by
  intro g q
  have orderly : ((r.alone.at clock).siteOf r.self).Orderly := lives.orderly.of_compactor rfl
  obtain ⟨more, served⟩ :=
    (lives.twin counts clock).serve steady orderly (r.alone.isHeld 0) own named
  obtain ⟨joint, counters, ids, shelf, ways⟩ :=
    lives.joint.visit clock (chore.map (Table.at r.places))
  obtain ⟨alone, selfCounters, selfIds, selfShelf, selfWays⟩ := lives.alone.visit clock chore
  rw [lives.isHeld] at joint counters ids shelf
  have places : q.places = r.places ++ more := by
    rw [served.grown, ← shelf]
    rfl
  have spares : f.Spares r.seat r.member r.places g :=
    Fleet.spares_visit lives.joint.member clock _ (shelf ▸ served.spares)
  rw [← places] at served
  refine ⟨?_, ?_, spares⟩
  · exact {
      joint
      alone
      compactor := served.compactor
      within := served.within
      ids := ids.trans (served.ids.trans selfIds.symm)
      part := by
        rw [shelf]
        exact selfShelf.symm ▸ served.part
      ways := by
        rw [Chore.handlesAfter_map, lives.ways] at ways
        exact ways.trans selfWays.symm
      orderly := (orderly.serve _ chore).of_compactor rfl }
  · have joined : (g.siteOf q.member).counters = _ := counters
    have apart : (q.alone.siteOf q.self).counters = _ := selfCounters
    rw [joined, apart]
    exact served.counters

end Resident

/-- Two members that share nothing but counters, and these only if said so. -/
structure Neighbours {R : Type} (shared : Bool) (f : Fleet R) (r q : Resident R) : Prop where
  first : r.Lives f
  second : q.Lives f
  seats : r.seat ≠ q.seat
  sources : r.member.source ≠ q.member.source
  cells : shared = true ↔ r.member.cell = q.member.cell
  places : r.places.Disjoint q.places
  firstCounts : Counters.Beside shared (q.alone.siteOf q.self).counters
    (f.siteOf r.member).counters (r.alone.siteOf r.self).counters
  secondCounts : Counters.Beside shared (r.alone.siteOf r.self).counters
    (f.siteOf q.member).counters (q.alone.siteOf q.self).counters

namespace Neighbours

variable {R : Type} {f : Fleet R} {r q : Resident R} {shared : Bool}

theorem symm (apart : Neighbours shared f r q) : Neighbours shared f q r where
  first := apart.second
  second := apart.first
  seats := apart.seats.symm
  sources := apart.sources.symm
  cells := apart.cells.trans eq_comm
  places _ mine its := apart.places its mine
  firstCounts := apart.secondCounts
  secondCounts := apart.firstCounts

/-- What is new on the shelf belongs to nobody else. -/
theorem disjoint_new (apart : Neighbours shared f r q) (count : Nat) :
    (r.places ++ List.range' f.shelf.holdings.size count).Disjoint q.places := by
  refine List.disjoint_append_left.2 ⟨apart.places, fun place new mine => ?_⟩
  exact Nat.not_lt.2 (List.mem_range'_1.1 new).1 (apart.second.part.inside mine)

variable [Quantity R]

/-- Whatever the owner of one of them does, both are what they are alone. -/
theorem visit (apart : Neighbours shared f r q) (clock : Clock) {chore : Chore R}
    (own : chore.isOwn = true) (named : ∀ x ∈ chore.tables, x.place < r.places.length) :
    Neighbours shared (f.visit clock r.seat (chore.map (Table.at r.places)))
      (r.after f clock chore) q := by
  obtain ⟨lives, counts, spares⟩ :=
    apart.first.visit (Counters.steady_beside _ _) apart.firstCounts clock own named
  exact {
    first := lives
    second := apart.second.spared spares apart.seats.symm apart.sources.symm apart.places
    seats := apart.seats
    sources := apart.sources
    cells := apart.cells
    places := apart.disjoint_new _
    firstCounts := counts
    -- The other one reads what was counted in a shared cell, and nothing new in one of its own.
    secondCounts := by
      cases shared with
      | true =>
        have cell : (r.after f clock chore).member.cell = q.member.cell := apart.cells.1 rfl
        have sum : Counters.Sum _ _ _ := counts
        rw [Fleet.siteOf, cell] at sum
        exact sum.symm
      | false =>
        have cell : q.member.cell ≠ r.member.cell := fun same =>
          absurd (apart.cells.2 same.symm) Bool.false_ne_true
        exact (spares.cells _ cell).trans apart.secondCounts }

end Neighbours

section Sources

variable {R : Type} {o : Opening R} {sources : List IdSource}

/-- The source of IDs that is made for a compactor, if it does not use a shared one. -/
def Opening.newSource (o : Opening R) : List IdSource :=
  match o.source with
  | some _ => []
  | none => [⟨0⟩]

theorem Fleet.sourceFor_eq (f : Fleet R) (o : Opening R) :
    f.sourceFor o =
      (o.source.getD f.sources.length, { f with sources := f.sources ++ o.newSource }) := by
  rw [sourceFor, Opening.newSource]
  cases o.source with
  | none => rfl
  | some source => simp

theorem Opening.source_lt (known : ∀ i ∈ o.source, i < sources.length) :
    o.source.getD sources.length < (sources ++ o.newSource).length := by
  rw [newSource]
  cases source : o.source with
  | none => simp
  | some i => simpa using known i source

/-- It starts with the same IDs if there are more sources. -/
theorem Opening.ids_append (known : ∀ i ∈ o.source, i < sources.length) (more : List IdSource) :
    ((sources ++ more) ++ o.newSource).getD (o.source.getD (sources ++ more).length) ⟨0⟩ =
      (sources ++ o.newSource).getD (o.source.getD sources.length) ⟨0⟩ := by
  rw [newSource]
  cases source : o.source with
  | none => simp [List.getD_eq_getElem?_getD]
  | some i =>
    have small := known i source
    simp [List.getD_eq_getElem?_getD, List.getElem?_append_left small]

/-- Sources differ unless both compactors use the same shared one. -/
theorem Opening.sources_ne {p : Opening R} (known : ∀ i ∈ o.source, i < sources.length)
    (otherKnown : ∀ i ∈ p.source, i < sources.length)
    (apart : o.source = none ∨ o.source ≠ p.source) :
    o.source.getD sources.length ≠ p.source.getD (sources ++ o.newSource).length := by
  rw [newSource]
  cases first : o.source with
  | none =>
    cases second : p.source with
    | none => simp
    | some j => simpa using (Nat.ne_of_lt (otherKnown j second)).symm
  | some i =>
    cases second : p.source with
    | none => simpa using Nat.ne_of_lt (known i first)
    | some j => simpa [first, second] using apart

end Sources

section Runs

variable {R : Type}

theorem ownVisits_cons_self (visit : Visit R) (rest : List (Visit R)) :
    ownVisits visit.owner (visit :: rest) =
      { visit with owner := 0 } :: ownVisits visit.owner rest := by
  simp [ownVisits]

theorem ownVisits_cons_of_ne {visit : Visit R} {owner : Nat} (other : visit.owner ≠ owner)
    (rest : List (Visit R)) : ownVisits owner (visit :: rest) = ownVisits owner rest := by
  simp [ownVisits, other]

namespace Town

private theorem range_append_range' {count more : Nat} (le : count ≤ more) :
    List.range count ++ List.range' count (more - count) = List.range more := by
  rw [List.range_eq_range', List.range_eq_range', ← Nat.add_sub_of_le le,
    ← List.range'_append, Nat.one_mul, Nat.zero_add, Nat.add_sub_of_le le]

/-- A town with two residents. -/
structure Hosts (shared : Bool) (r q : Resident R) (t : Town R) : Prop where
  apart : Neighbours shared t.fleet r q
  first : t.places[r.seat]? = some r.places
  second : t.places[q.seat]? = some q.places
  others : ∀ k, k ≠ r.seat → k ≠ q.seat → t.places[k]? = none

/-- The town that there is if a resident is alone. -/
structure Houses (r : Resident R) (t : Town R) : Prop where
  fleet : t.fleet = r.alone
  places : t.places = [List.range r.places.length]

variable {shared : Bool} {r q : Resident R} {t u v : Town R}

theorem Hosts.symm (hosts : Hosts shared r q t) : Hosts shared q r t where
  apart := hosts.apart.symm
  first := hosts.second
  second := hosts.first
  others k second first := hosts.others k first second

/-- How a resident is found among others, and how alone. -/
theorem Hosts.outcome (hosts : Hosts shared r q t) (own : Houses r u) (other : Houses q v) :
    t.fleet.members[r.seat]? = some r.member ∧ u.fleet.members[0]? = some r.self ∧
      t.places[r.seat]? = some r.places ∧
      r.member.compactor = r.self.compactor.map (Table.at r.places) ∧
      Shelf.Part r.places u.fleet.shelf t.fleet.shelf ∧
      t.fleet.isHeld r.seat = u.fleet.isHeld 0 ∧
      Counters.Beside shared (v.fleet.countersOf 0) (t.fleet.countersOf r.seat)
        (u.fleet.countersOf 0) := by
  have lives := hosts.apart.first
  rw [own.fleet, other.fleet, lives.countersOf, lives.countersOf_self,
    hosts.apart.second.countersOf_self]
  exact ⟨lives.joint.member, lives.alone.member, hosts.first, lives.compactor, lives.part,
    lives.isHeld, hosts.apart.firstCounts⟩

/-- A new compactor. -/
def newcomer (clock : Clock) (sources : List IdSource) (o : Opening R) (seat cell source : Nat) :
    Resident R where
  seat
  member := { compactor := o.compactor, cell, source }
  places := []
  alone := (opened clock sources [o]).fleet
  self := { compactor := o.compactor, cell := 0, source := o.source.getD sources.length }

variable {clock : Clock} {sources : List IdSource} {o p : Opening R} {seat cell source : Nat}

theorem houses_opened :
    Houses (newcomer clock sources o seat cell source) (opened clock sources [o]) :=
  ⟨rfl, rfl⟩

theorem opened_one (clock : Clock) (sources : List IdSource) (o : Opening R) :
    ∃ registry, (opened clock sources [o]).fleet =
      { members := [
          { compactor := o.compactor, cell := 0, source := o.source.getD sources.length }]
        handles := [{ member := 0, held := true }]
        cells := [{}]
        sources := sources ++ o.newSource
        registry
        shelf := .empty
        clock
        notices := [.opened o.store] } := by
  cases registered : o.registered <;>
    simp [opened, Fleet.enroll, Fleet.cellFor, Fleet.counted, Fleet.sourceFor_eq, Fleet.empty,
      Registry.empty, Registry.cell?, registered]

theorem opened_two (clock : Clock) (sources : List IdSource) (o p : Opening R) :
    ∃ registry, (opened clock sources [o, p]).fleet =
      { members := [
          { compactor := o.compactor, cell := 0, source := o.source.getD sources.length },
          { compactor := p.compactor
            cell := if o.sharesCounters p then 0 else 1
            source := p.source.getD (sources ++ o.newSource).length }]
        handles := [{ member := 0, held := true }, { member := 1, held := true }]
        cells := if o.sharesCounters p then [{}] else [{}, {}]
        sources := sources ++ o.newSource ++ p.newSource
        registry
        shelf := .empty
        clock
        notices := [.opened o.store, .opened p.store] } := by
  rw [Opening.sharesCounters]
  have comm : (p.store == o.store) = (o.store == p.store) := BEq.comm
  cases first : o.registered <;> cases second : p.registered <;>
    cases same : o.store == p.store <;>
    simp [opened, Fleet.enroll, Fleet.cellFor, Fleet.counted, Fleet.sourceFor_eq, Fleet.empty,
      Registry.empty, Registry.enter, Registry.cell?, List.lookup_cons, first, second, same, comm]

theorem lives_newcomer (known : ∀ i ∈ o.source, i < sources.length) {f : Fleet R}
    (seats : f.Seats seat (newcomer clock sources o seat cell source).member)
    (ids : f.sources.getD source ⟨0⟩ =
      (sources ++ o.newSource).getD (o.source.getD sources.length) ⟨0⟩)
    (ways : f.ways seat = 1) : (newcomer clock sources o seat cell source).Lives f := by
  obtain ⟨registry, alone⟩ := opened_one clock sources o
  have fleet : (newcomer clock sources o seat cell source).alone = _ := alone
  constructor
  · exact seats
  · rw [fleet]
    exact ⟨rfl, Nat.zero_lt_one, Opening.source_lt known⟩
  · rfl
  · exact ⟨fun _ live => absurd live List.not_mem_nil, fun _ waits => absurd waits List.not_mem_nil,
      fun _ known => absurd known List.not_mem_nil⟩
  · rw [fleet]
    exact ids
  · rw [fleet]
    exact ⟨List.nodup_nil, rfl, fun _ _ there => absurd there (Option.some_ne_none _).symm⟩
  · rw [fleet]
    exact ways
  · have orderly := (f.siteOf (newcomer clock sources o seat cell source).self).orderly_opened o
    exact orderly.of_compactor rfl

theorem hosts_opened (clock : Clock) (known : ∀ i ∈ o.source, i < sources.length)
    (otherKnown : ∀ i ∈ p.source, i < sources.length)
    (apart : o.source = none ∨ o.source ≠ p.source) :
    ∃ firstSource cell secondSource, Hosts (o.sharesCounters p)
      (newcomer clock sources o 0 0 firstSource) (newcomer clock sources p 1 cell secondSource)
      (opened clock sources [o, p]) := by
  obtain ⟨registry, joint⟩ := opened_two clock sources o p
  obtain ⟨_, first⟩ := opened_one clock sources o
  obtain ⟨_, second⟩ := opened_one clock sources p
  have differ := Opening.sources_ne known otherKnown apart
  have firstSmall := Opening.source_lt known
  have more : ∀ i ∈ p.source, i < (sources ++ o.newSource).length := fun i shared =>
    Nat.lt_of_lt_of_le (otherKnown i shared) (by simp)
  refine ⟨o.source.getD sources.length, if o.sharesCounters p then 0 else 1,
    p.source.getD (sources ++ o.newSource).length, ?_, rfl, rfl, fun k first second => ?_⟩
  · rw [joint]
    generalize o.sharesCounters p = shared
    exact {
      first := by
        refine lives_newcomer known ⟨rfl, by cases shared <;> simp [newcomer], ?_⟩ ?_ rfl
        · exact Nat.lt_of_lt_of_le firstSmall (by simp)
        · rw [List.getD_eq_getElem?_getD, List.getElem?_append_left firstSmall,
            List.getD_eq_getElem?_getD]
      second := lives_newcomer otherKnown
        ⟨rfl, by cases shared <;> simp [newcomer], Opening.source_lt more⟩
        (Opening.ids_append otherKnown _) rfl
      seats := Nat.zero_ne_one
      sources := differ
      cells := by cases shared <;> simp [newcomer]
      places := fun _ none => absurd none List.not_mem_nil
      firstCounts := by
        change Counters.Beside shared ((opened clock sources [p]).fleet.cells.getD 0 {}) _
          ((opened clock sources [o]).fleet.cells.getD 0 {})
        rw [first, second]
        cases shared <;> exact Counters.beside_new _
      secondCounts := by
        change Counters.Beside shared ((opened clock sources [o]).fleet.cells.getD 0 {}) _
          ((opened clock sources [p]).fleet.cells.getD 0 {})
        rw [first, second]
        cases shared <;> exact Counters.beside_new _ }
  · match k with
    | 0 => contradiction
    | 1 => contradiction
    | k + 2 => rfl

variable [Quantity R]

/-- A visit of one of the owners is one that he makes when he is alone. -/
theorem Hosts.take (hosts : Hosts shared r q t) (houses : Houses r u) {visit : Visit R}
    (owner : visit.owner = r.seat) :
    ∃ p, p.seat = r.seat ∧ Hosts shared p q (t.take visit) ∧
      Houses p (u.take { visit with owner := 0 }) := by
  have own : u.places[0]? = some (List.range r.places.length) := by rw [houses.places]; rfl
  simp only [Town.take, owner, hosts.first, own, List.length_range]
  split
  · next possible =>
    obtain ⟨own, named⟩ := Bool.and_eq_true_iff.1 possible
    have named : ∀ x ∈ visit.chore.tables, x.place < r.places.length := by simpa using named
    -- Alone, the tables stand in the order in which they were made.
    have same : visit.chore.map (Table.at (List.range r.places.length)) = visit.chore :=
      Chore.map_of_fixed fun x member => Table.at_range (named x member)
    have apart := hosts.apart.visit visit.clock own named
    have small := (List.getElem?_eq_some_iff.1 hosts.first).1
    have before : u.fleet.shelf.holdings.size = r.places.length := by
      rw [houses.fleet, hosts.apart.first.part.size]
    have after : (u.fleet.visit visit.clock 0 visit.chore).shelf.holdings.size =
        (r.after t.fleet visit.clock visit.chore).places.length := by
      rw [houses.fleet]
      exact apart.first.part.size
    have longer : r.places.length ≤ (r.after t.fleet visit.clock visit.chore).places.length := by
      simp [Resident.after]
    refine ⟨r.after t.fleet visit.clock visit.chore, rfl, ⟨apart, ?_, ?_, ?_⟩, ⟨?_, ?_⟩⟩
    · exact List.getElem?_set_self small
    · exact (List.getElem?_set_ne hosts.apart.seats).trans hosts.second
    · intro k first second
      exact (List.getElem?_set_ne (Ne.symm first)).trans (hosts.others k first second)
    · simp only [same, houses.fleet]
      rfl
    · simp only [same, houses.places, List.set_cons_zero, before, after, range_append_range' longer]
  · exact ⟨r, rfl, hosts, houses⟩

/-- Whatever the owners do, and in whichever order, each of them does it as if he were alone. -/
theorem Hosts.run (hosts : Hosts shared r q t) (first : Houses r u) (second : Houses q v)
    (visits : List (Visit R)) :
    ∃ r' q', r'.seat = r.seat ∧ q'.seat = q.seat ∧ Hosts shared r' q' (t.run visits) ∧
      Houses r' (u.run (ownVisits r.seat visits)) ∧
      Houses q' (v.run (ownVisits q.seat visits)) := by
  induction visits generalizing t u v r q with
  | nil => exact ⟨r, q, rfl, rfl, hosts, first, second⟩
  | cons visit rest ih =>
    -- One of the towns in which an owner is alone takes the step too, or none does.
    by_cases mine : visit.owner = r.seat
    · obtain ⟨p, seat, hosts, later⟩ := hosts.take first mine
      have other : visit.owner ≠ q.seat := by
        rw [mine, ← seat]
        exact hosts.apart.seats
      have runs := ih hosts later second
      rw [seat] at runs
      rw [ownVisits_cons_of_ne other, ← mine, ownVisits_cons_self, mine]
      exact runs
    · by_cases its : visit.owner = q.seat
      · obtain ⟨p, seat, hosts, later⟩ := hosts.symm.take second its
        have runs := ih hosts.symm first later
        rw [seat] at runs
        rw [ownVisits_cons_of_ne mine, ← its, ownVisits_cons_self, its]
        exact runs
      · have nobody : t.take visit = t := by
          simp only [Town.take, hosts.others _ mine its]
        have runs := ih hosts first second
        rw [ownVisits_cons_of_ne mine, ownVisits_cons_of_ne its]
        simp only [Town.run, List.foldl_cons, nobody] at runs ⊢
        exact runs

/-- Compactors have queues, tables and sources of IDs of their own, and their owners do what they
like, in any order. Then each compactor is in the end what it is if its owner is alone: its live
tables and those in flight, whether it is enabled, its thresholds, events and jobs are the same, but
for the places at which the shelf keeps the tables, and so are these tables themselves. Its counters
are the same too, if they are not those of the other one. If they are, whatever is counted over time
is the sum of what is counted for each of them alone. -/
theorem each_runs_as_alone (clock : Clock) (sources : List IdSource) (first second : Opening R)
    (known : ∀ o ∈ [first, second], ∀ i ∈ o.source, i < sources.length)
    (apart : first.source = none ∨ first.source ≠ second.source) (visits : List (Visit R)) :
    let joint := (opened clock sources [first, second]).run visits
    let alone := fun k o => (opened clock sources [o]).run (ownVisits k visits)
    ∀ k o, [first, second][k]? = some o →
      ∃ m n places, joint.fleet.members[k]? = some m ∧ (alone k o).fleet.members[0]? = some n ∧
        joint.places[k]? = some places ∧
        m.compactor = n.compactor.map (Table.at places) ∧
        Shelf.Part places (alone k o).fleet.shelf joint.fleet.shelf ∧
        joint.fleet.isHeld k = (alone k o).fleet.isHeld 0 ∧
        (first.sharesCounters second = false →
          joint.fleet.countersOf k = (alone k o).fleet.countersOf 0) ∧
        (first.sharesCounters second = true →
          (joint.fleet.countersOf k).Sum ((alone 0 first).fleet.countersOf 0)
            ((alone 1 second).fleet.countersOf 0)) := by
  intro joint alone k o opening
  obtain ⟨firstKnown, rest⟩ := List.forall_mem_cons.1 known
  obtain ⟨_, _, _, started⟩ := hosts_opened clock firstKnown (rest second List.mem_cons_self) apart
  obtain ⟨r, q, here, there, hosts, own, other⟩ := started.run houses_opened houses_opened visits
  match k with
  | 0 =>
    cases opening
    obtain ⟨member, self, places, compactor, part, held, counts⟩ := hosts.outcome own other
    rw [here] at member places held counts
    refine ⟨r.member, r.self, r.places, member, self, places, compactor, part, held,
      fun apart => ?_, fun shared => ?_⟩
    · rwa [apart] at counts
    · rwa [shared] at counts
  | 1 =>
    cases opening
    obtain ⟨member, self, places, compactor, part, held, counts⟩ := hosts.symm.outcome other own
    rw [there] at member places held counts
    refine ⟨q.member, q.self, q.places, member, self, places, compactor, part, held,
      fun apart => ?_, fun shared => ?_⟩
    · rwa [apart] at counts
    · rw [shared] at counts
      exact Counters.Sum.symm counts
  | k + 2 => contradiction

/-- Two stores of one name: tables of the first one are merged, while the handle of the other one is
let go of. Both flushed tables, at places between each other, under IDs of sources of their own. -/
theorem stores_of_one_name :
    let o : Opening Float := { Opening.sample .keep with registered := true }
    let p : Opening Float := { o with source := some 0 }
    let clock : Clock := { instant := 0, moment := ⟨0⟩ }
    let mine (chore : Chore Float) : Visit Float := { owner := 0, clock, chore }
    let its (chore : Chore Float) : Visit Float :=
      { owner := 1, clock := { instant := 5, moment := ⟨1⟩ }, chore }
    let visits := [mine (.make none 10), its (.make none 20), mine (.make none 10),
      its (.make none 20), mine (.make none 10), mine (.make none 10),
      mine (.call (.flush [⟨0, 10, 0⟩, ⟨1, 10, 1⟩])), its (.call (.flush [⟨7, 20, 0⟩])),
      its (.call .enable), its .leave, mine (.call .enable),
      mine (.call (.flush [⟨2, 10, 2⟩, ⟨3, 10, 3⟩])), its (.call (.flush [⟨8, 20, 1⟩])),
      mine (.make none 40), mine (.call (.completeJob 0 [⟨4, 40, 4⟩]))]
    let joint := (opened clock [⟨7⟩] [o, p]).run visits
    let alone := fun k o => (opened clock [⟨7⟩] [o]).run (ownVisits k visits)
    joint.places = [[0, 2, 4, 5, 6], [1, 3]] ∧
      (joint.fleet.countersOf 0).Sum ((alone 0 o).fleet.countersOf 0)
        ((alone 1 p).fleet.countersOf 0) ∧
      ((alone 0 o).fleet.countersOf 0).completed = 1 ∧
      ((alone 0 o).fleet.countersOf 0).flushes = 2 ∧
      ((alone 1 p).fleet.countersOf 0).flushes = 1 := by
  intro o p clock mine its visits joint alone
  obtain ⟨m, n, places, _, _, _, _, _, _, _, sum⟩ :=
    each_runs_as_alone clock [⟨7⟩] o p (by decide) (by decide) visits 0 o rfl
  exact ⟨by decide +kernel, sum (by decide), by decide +kernel, by decide +kernel,
    by decide +kernel⟩

end Town

end Runs

end TieredCompaction
