import TieredCompaction.Proofs.Site.Tally
/-!
Runs of a fleet: compactors are opened, called through their handles and let go of in any order. A
job can be resolved whether its compactor is still there or not. What an errand does to one member
is said once, in `perform_cases`.
-/
namespace TieredCompaction

/-- What can happen to a fleet. Members and handles are named by their places. -/
inductive Errand (R : Type) where
  | enroll (o : Opening R)
  /-- Calls a member, if a handle of it is held, or resolves one of its jobs. -/
  | call (member : Nat) (call : Call R)
  | duplicate (handle : Nat)
  | release (handle : Nat)
  /-- Somebody asks the registry for the counters of a store. -/
  | register (store : StoreName)
  /-- Time passes, and others draw IDs, read tables and make new ones. -/
  | elsewhere (sources : List IdSource) (shelf : Shelf R) (clock : Clock)

theorem Registry.cell?_enter {r : Registry} {store other : StoreName} {cell new : Nat}
    (known : (r.enter store new).cell? other = some cell) :
    r.cell? other = some cell ∨ cell = new := by
  rw [cell?, enter, List.lookup_append, Option.or_eq_some_iff] at known
  rcases known with old | ⟨_, entered⟩
  · exact .inl old
  · rw [List.lookup_cons] at entered
    split at entered
    · exact .inr (Option.some.inj entered).symm
    · contradiction

namespace Fleet

variable {R : Type} [Quantity R]

/-- Does something with the waiting job of an ID, if there is one. -/
def onJob (f : Fleet R) (member id : Nat) (resolve : Job R → Fleet R) : Fleet R :=
  match (f.waiting member).find? (·.id == id) with
  | some job => resolve job
  | none => f

/-- Calls a member. Without a handle of it only its jobs can be resolved. -/
def deliver (f : Fleet R) (member : Nat) : Call R → Fleet R
  | .completeJob id outputs => f.onJob member id fun job => f.completeJob member job outputs
  | .failJob id cause => f.onJob member id fun job => f.failJob member job cause
  | .dropJob id => f.onJob member id fun job => f.dropJob member job
  | call => if f.isHeld member then f.change member (·.perform call) else f

def perform (f : Fleet R) : Errand R → Fleet R
  | .enroll o => f.enroll o
  | .call member call => f.deliver member call
  | .duplicate index =>
    match f.handles[index]? with
    | some handle => if handle.held then f.duplicate handle else f
    | none => f
  | .release index => f.release index
  | .register store => (f.counted store).2
  | .elsewhere sources shelf clock => { f with sources, shelf, clock }

def run (f : Fleet R) (errands : List (Errand R)) : Fleet R :=
  errands.foldl perform f

/-- The cells of the members, in order. -/
def cellsUsed (f : Fleet R) : List Nat :=
  f.members.map (·.cell)

/-- No other member uses the counters of this one. -/
def Owns (f : Fleet R) (k : Nat) : Prop :=
  ∀ cell, f.cellsUsed[k]? = some cell → ∀ j : Nat, f.cellsUsed[j]? = some cell → j = k

variable {f : Fleet R} {k : Nat} {m : Member R}

section Frame

omit [Quantity R]

theorem change_eq (member : f.members[k]? = some m) (operation : Site R → Site R) :
    f.change k operation = f.putBack k m (operation (f.siteOf m)) := by
  simp [change, act, member]

theorem change_of_none (none : f.members[k]? = none) (operation : Site R → Site R) :
    f.change k operation = f := by
  simp [change, act, none]

theorem waiting_eq (member : f.members[k]? = some m) : f.waiting k = m.compactor.waiting := by
  simp [waiting, member]

theorem members_putBack (member : f.members[k]? = some m) (s : Site R) :
    (f.putBack k m s).members[k]? = some { m with compactor := s.compactor } := by
  have small : k < f.members.length := (List.getElem?_eq_some_iff.1 member).1
  simp [putBack, small]

theorem members_putBack_of_ne (s : Site R) {j : Nat} (other : j ≠ k) :
    (f.putBack k m s).members[j]? = f.members[j]? := by
  simp [putBack, List.getElem?_set_ne other.symm]

private theorem set_of_getElem? {α : Type} {xs : List α} {i : Nat} {x : α}
    (there : xs[i]? = some x) : xs.set i x = xs := by
  obtain ⟨small, rfl⟩ := List.getElem?_eq_some_iff.1 there
  exact List.set_getElem_self small

theorem cellsUsed_putBack (member : f.members[k]? = some m) (s : Site R) :
    (f.putBack k m s).cellsUsed = f.cellsUsed := by
  have there : (f.members.map (·.cell))[k]? = some m.cell := by simp [member]
  simp only [cellsUsed, putBack, List.map_set]
  exact set_of_getElem? there

theorem counters_putBack (used : m.cell < f.cells.length) (s : Site R) :
    (f.putBack k m s).cells.getD m.cell {} = s.counters := by
  simp [putBack, List.getD_eq_getElem?_getD, used]

theorem counters_putBack_of_ne (s : Site R) {cell : Nat} (other : cell ≠ m.cell) :
    (f.putBack k m s).cells.getD cell {} = f.cells.getD cell {} := by
  simp [putBack, List.getD_eq_getElem?_getD, List.getElem?_set_ne other.symm]

theorem ids_putBack (used : m.source < f.sources.length) (s : Site R) :
    (f.putBack k m s).sources.getD m.source ⟨0⟩ = s.ids := by
  simp [putBack, List.getD_eq_getElem?_getD, used]

theorem ids_putBack_of_ne (s : Site R) {source : Nat} (other : source ≠ m.source) :
    (f.putBack k m s).sources.getD source ⟨0⟩ = f.sources.getD source ⟨0⟩ := by
  simp [putBack, List.getD_eq_getElem?_getD, List.getElem?_set_ne other.symm]

private theorem set_getD {α : Type} (xs : List α) (i : Nat) (default : α) :
    xs.set i (xs.getD i default) = xs := by
  cases there : xs[i]? with
  | none => exact List.set_eq_of_length_le (List.getElem?_eq_none_iff.1 there)
  | some x =>
    rw [List.getD_eq_getElem?_getD, there]
    exact set_of_getElem? there

/-- What nobody touched may be put back. -/
theorem putBack_siteOf (member : f.members[k]? = some m) : f.putBack k m (f.siteOf m) = f := by
  have same : f.members.set k m = f.members := set_of_getElem? member
  simp only [putBack, siteOf, set_getD]
  rw [same]

/-- A job that is taken from the queue of a member is missing there, and that is all. -/
theorem putBack_withdraw (f : Fleet R) (k : Nat) (m : Member R) (id : Nat)
    (told : List (Notice R)) :
    f.putBack k m (((f.siteOf m).withdraw id).noteAll told) = { f with
      members := f.members.set k
        { m with compactor.waiting := m.compactor.waiting.filter (·.id != id) }
      notices := f.notices ++ told } := by
  simp only [putBack, siteOf, Site.withdraw, Site.noteAll, set_getD]

theorem onJob_eq (member : f.members[k]? = some m) {id : Nat} {resolve : Job R → Fleet R}
    {inside : Site R → Job R → Site R}
    (same : ∀ job, resolve job = f.change k fun s => inside s job) :
    f.onJob k id resolve = f.putBack k m ((f.siteOf m).onJob id inside) := by
  rw [onJob, waiting_eq member, Site.onJob, Site.job?]
  change _ = f.putBack k m (match m.compactor.waiting.find? (·.id == id) with
    | some job => inside (f.siteOf m) job
    | none => f.siteOf m)
  split
  · next job _ => rw [same job, change_eq member]
  · rw [putBack_siteOf member]

private theorem onJob_late (s : Site R) (id : Nat) {f : Site R → Job R → Site R}
    (late : ∀ job, ∃ told, f s job = (s.withdraw job.id).noteAll told) :
    ∃ told, s.onJob id f = (s.withdraw id).noteAll told := by
  rw [Site.onJob]
  split
  · next job found =>
    obtain ⟨told, same⟩ := late job
    have named : job.id = id := by simpa using List.find?_some found
    exact ⟨told, named ▸ same⟩
  · next none =>
    refine ⟨[], ?_⟩
    have absent : s.compactor.waiting.filter (·.id != id) = s.compactor.waiting := by
      refine List.filter_eq_self.2 fun job waits => ?_
      have differ := List.find?_eq_none.1 none job waits
      simpa using differ
    simp only [Site.withdraw, absent, Site.noteAll, List.append_nil]

end Frame

/-- With a handle all calls reach the member. -/
theorem deliver_of_held (held : f.isHeld k = true) (member : f.members[k]? = some m)
    (call : Call R) : f.deliver k call = f.putBack k m ((f.siteOf m).perform call) := by
  cases call with
  | completeJob id outputs =>
    exact onJob_eq member fun job => by simp only [completeJob, held, if_true]
  | failJob id cause => exact onJob_eq member fun job => by simp only [failJob, held, if_true]
  | dropJob id => exact onJob_eq member fun job => by simp only [dropJob, held, if_true]
  | _ => simp only [deliver, held, if_true, change_eq member]

/-- Without a handle, resolving a job takes it from the queue, and that is all. -/
theorem deliver_late (released : f.isHeld k = false) (member : f.members[k]? = some m)
    {call : Call R} {id : Nat} (resolves : call.resolves = some id) :
    ∃ told, f.deliver k call = f.putBack k m (((f.siteOf m).withdraw id).noteAll told) := by
  have late {g : Site R → Job R → Site R} {resolve : Job R → Fleet R}
      (same : ∀ job, resolve job = f.change k fun s => g s job)
      (noted : ∀ s job, ∃ told, g s job = (s.withdraw job.id).noteAll told) :
      ∃ told, f.onJob k id resolve =
        f.putBack k m (((f.siteOf m).withdraw id).noteAll told) := by
    obtain ⟨told, after⟩ := onJob_late (f.siteOf m) id (noted (f.siteOf m))
    exact ⟨told, by rw [onJob_eq member same, after]⟩
  cases call with
  | completeJob id outputs =>
    cases resolves
    refine late (fun job => ?_) fun s job => ⟨[.completedLate job.id], rfl⟩
    simp only [completeJob, released, Bool.false_eq_true, if_false]
    rfl
  | failJob id cause =>
    cases resolves
    refine late (fun job => ?_) fun s job => ⟨[.failedLate job.id], rfl⟩
    simp only [failJob, released, Bool.false_eq_true, if_false]
    rfl
  | dropJob id =>
    cases resolves
    refine late (g := fun s job => s.withdraw job.id) (fun job => ?_) fun s job => ⟨[], ?_⟩
    · simp only [dropJob, released, Bool.false_eq_true, if_false]
    · simp [Site.noteAll]
  | _ => contradiction

/-- Without a handle, other calls do not reach the member. -/
theorem deliver_nothing (released : f.isHeld k = false) {call : Call R}
    (other : call.resolves = none) : f.deliver k call = f := by
  cases call with
  | completeJob | failJob | dropJob => contradiction
  | _ => simp [deliver, released]

/-- Whatever is called, only the member itself changes, with what it shares with others. -/
theorem deliver_eq_putBack (member : f.members[k]? = some m) (call : Call R) :
    ∃ s, f.deliver k call = f.putBack k m s := by
  cases held : f.isHeld k with
  | true => exact ⟨_, deliver_of_held held member call⟩
  | false =>
    cases resolves : call.resolves with
    | none => exact ⟨f.siteOf m, by rw [deliver_nothing held resolves, putBack_siteOf member]⟩
    | some id =>
      obtain ⟨told, after⟩ := deliver_late held member resolves
      exact ⟨_, after⟩

theorem deliver_of_none (none : f.members[k]? = none) (call : Call R) : f.deliver k call = f := by
  have empty : f.waiting k = [] := by simp [waiting, none]
  cases call with
  | completeJob | failJob | dropJob => simp [deliver, onJob, empty]
  | _ => simp [deliver, change_of_none none]

omit [Quantity R] in
private theorem change_note (f : Fleet R) (k : Nat) (notice : Site R → Notice R) :
    ∃ notices, f.change k (fun s => s.note (notice s)) = { f with notices } := by
  cases member : f.members[k]? with
  | none => exact ⟨f.notices, change_of_none member _⟩
  | some m =>
    refine ⟨f.notices ++ [notice (f.siteOf m)], ?_⟩
    have same := congrArg (fun g => { g with notices := f.notices ++ [notice (f.siteOf m)] })
      (putBack_siteOf member)
    rw [change_eq member, ← same]
    rfl

omit [Quantity R] in
/-- A handle that is held is not held afterwards, and it is told if it was the last one. -/
theorem release_held (f : Fleet R) {index : Nat} {handle : Handle}
    (found : f.handles[index]? = some handle) (held : handle.held = true) :
    ∃ notices, f.release index =
      { f with handles := f.handles.set index { handle with held := false }, notices } := by
  simp only [release, found, held, if_true]
  split
  · exact ⟨f.notices, rfl⟩
  · exact change_note { f with handles := f.handles.set index { handle with held := false } }
      handle.member fun s => .closed s.compactor.store

omit [Quantity R] in
/-- Letting go of a handle changes nothing but the handles, and it is told. -/
theorem release_eq (f : Fleet R) (index : Nat) :
    ∃ handles notices, f.release index = { f with handles, notices } ∧
      ∀ h ∈ handles, h ∈ f.handles ∨ h.held = false ∧ ∃ old ∈ f.handles, old.member = h.member := by
  have nothing : ∃ handles notices, f = { f with handles, notices } ∧
      ∀ h ∈ handles, h ∈ f.handles ∨ h.held = false ∧ ∃ old ∈ f.handles, old.member = h.member :=
    ⟨f.handles, f.notices, rfl, fun h kept => .inl kept⟩
  cases found : f.handles[index]? with
  | none => simpa only [release, found] using nothing
  | some handle =>
    cases held : handle.held with
    | false => simpa only [release, found, held, Bool.false_eq_true, if_false] using nothing
    | true =>
      obtain ⟨notices, after⟩ := f.release_held found held
      refine ⟨_, notices, after, fun h kept => ?_⟩
      rcases List.mem_or_eq_of_mem_set kept with old | rfl
      · exact .inl old
      · exact .inr ⟨rfl, handle, List.mem_of_getElem? found, rfl⟩

section Counters

omit [Quantity R]

/-- Nothing but new counters, maybe under the name of a store. -/
structure Stocked (f g : Fleet R) : Prop where
  members : g.members = f.members
  handles : g.handles = f.handles
  cells : g.cells = f.cells ∨ g.cells = f.cells ++ [({} : Counters)]
  registered : ∀ store cell, g.registry.cell? store = some cell →
    f.registry.cell? store = some cell ∨ cell < g.cells.length

theorem Stocked.refl (f : Fleet R) : Stocked f f where
  members := rfl
  handles := rfl
  cells := .inl rfl
  registered _ _ := .inl

theorem stocked_counted (f : Fleet R) (store : StoreName) :
    Stocked f (f.counted store).2 ∧ (f.registry.cell? store = some (f.counted store).1 ∨
      (f.counted store).1 < (f.counted store).2.cells.length) := by
  cases known : f.registry.cell? store with
  | some cell =>
    simp only [counted, known]
    exact ⟨.refl f, .inl trivial⟩
  | none =>
    simp only [counted, known]
    refine ⟨⟨rfl, rfl, .inr rfl, fun other cell entered => ?_⟩, .inr (by simp)⟩
    rcases Registry.cell?_enter entered with old | rfl
    · exact .inl old
    · exact .inr (by simp)

theorem stocked_cellFor (f : Fleet R) (o : Opening R) :
    Stocked f (f.cellFor o).2 ∧ (f.registry.cell? o.store = some (f.cellFor o).1 ∨
      (f.cellFor o).1 < (f.cellFor o).2.cells.length) := by
  rw [cellFor]
  split
  · exact f.stocked_counted o.store
  · exact ⟨⟨rfl, rfl, .inr rfl, fun _ _ => .inl⟩, .inr (by simp)⟩

/-- A new member with a handle, and counters for it. -/
theorem enroll_eq (f : Fleet R) (o : Opening R) :
    ∃ g sources notices m, Stocked f g ∧ m.compactor = o.compactor ∧
      (f.registry.cell? o.store = some m.cell ∨ m.cell < g.cells.length) ∧
      f.enroll o = { g with
        members := f.members ++ [m]
        handles := f.handles ++ [{ member := f.members.length, held := true }]
        sources, notices } := by
  obtain ⟨stocked, used⟩ := f.stocked_cellFor o
  rw [enroll]
  generalize f.cellFor o = pair at stocked used ⊢
  obtain ⟨cell, g⟩ := pair
  have sourced : ∃ source sources, g.sourceFor o = (source, { g with sources }) := by
    rw [sourceFor]
    split
    · exact ⟨_, _, rfl⟩
    · exact ⟨_, _, rfl⟩
  obtain ⟨source, sources, supplied⟩ := sourced
  refine ⟨g, sources, g.notices ++ [.opened o.store],
    { compactor := o.compactor, cell, source }, stocked, rfl, used, ?_⟩
  have members : g.members = f.members := stocked.members
  have handles : g.handles = f.handles := stocked.handles
  simp only [supplied, members, handles]

end Counters

section Invariants

/-- Members and handles refer to what there is, and counters that no member uses are untouched. -/
structure Sound (f : Fleet R) : Prop where
  orderly : ∀ m ∈ f.members, (f.siteOf m).Orderly
  cells : ∀ m ∈ f.members, m.cell < f.cells.length
  handles : ∀ h ∈ f.handles, h.member < f.members.length
  registered : ∀ store cell, f.registry.cell? store = some cell → cell < f.cells.length
  unused : ∀ cell ∉ f.cellsUsed, f.cells.getD cell {} = {}

omit [Quantity R]

theorem sound_empty (clock : Clock) (shared : IdSource) : (empty clock shared : Fleet R).Sound where
  orderly _ member := absurd member List.not_mem_nil
  cells _ member := absurd member List.not_mem_nil
  handles _ handle := absurd handle List.not_mem_nil
  registered _ _ known := by simp [empty, Registry.cell?, Registry.empty] at known
  unused _ _ := rfl

theorem Stocked.getD {f g : Fleet R} (stocked : Stocked f g) (cell : Nat) :
    g.cells.getD cell {} = f.cells.getD cell {} := by
  rcases stocked.cells with same | more
  · rw [same]
  · rw [more, List.getD_eq_getElem?_getD, List.getD_eq_getElem?_getD, List.getElem?_append]
    split
    · rfl
    · next large =>
      rw [List.getElem?_eq_none (Nat.le_of_not_lt large)]
      cases cell - f.cells.length <;> rfl

theorem Stocked.length_le {f g : Fleet R} (stocked : Stocked f g) :
    f.cells.length ≤ g.cells.length := by
  rcases stocked.cells with same | more
  · exact Nat.le_of_eq (congrArg List.length same.symm)
  · rw [more, List.length_append]
    exact Nat.le_add_right _ _

theorem Sound.stocked {f g : Fleet R} (sound : f.Sound) (stocked : Stocked f g) : g.Sound where
  orderly m member := (sound.orderly m (stocked.members ▸ member)).of_compactor rfl
  cells m member :=
    Nat.lt_of_lt_of_le (sound.cells m (stocked.members ▸ member)) stocked.length_le
  handles h handle := by
    rw [stocked.members]
    exact sound.handles h (stocked.handles ▸ handle)
  registered store cell known := by
    rcases stocked.registered store cell known with old | small
    · exact Nat.lt_of_lt_of_le (sound.registered store cell old) stocked.length_le
    · exact small
  unused cell free := by
    rw [cellsUsed, stocked.members] at free
    rw [stocked.getD, sound.unused cell free]

/-- Other members share no more than counters, and not those that belong to this one. -/
theorem siteOf_putBack (sound : f.Sound) (member : f.members[k]? = some m) (s : Site R) :
    let after := (f.putBack k m s).siteOf { m with compactor := s.compactor }
    after.compactor = s.compactor ∧ after.counters = s.counters := by
  have used := sound.cells m (List.mem_of_getElem? member)
  exact ⟨rfl, counters_putBack used s⟩

theorem Sound.putBack (sound : f.Sound) (member : f.members[k]? = some m) {s : Site R}
    (orderly : s.Orderly) : (f.putBack k m s).Sound where
  orderly n there := by
    obtain ⟨j, place⟩ := List.getElem?_of_mem there
    by_cases same : j = k
    · subst same
      rw [members_putBack member, Option.some.injEq] at place
      subst place
      exact orderly.of_compactor rfl
    · rw [members_putBack_of_ne s same] at place
      exact (sound.orderly n (List.mem_of_getElem? place)).of_compactor rfl
  cells n there := by
    have cell : n.cell ∈ f.cellsUsed :=
      cellsUsed_putBack member s ▸ List.mem_map_of_mem (f := (·.cell)) there
    obtain ⟨old, known, same⟩ := List.mem_map.1 cell
    rw [← same]
    simpa [Fleet.putBack] using sound.cells old known
  handles h handle := by simpa [Fleet.putBack] using sound.handles h handle
  registered store cell known := by simpa [Fleet.putBack] using sound.registered store cell known
  unused cell free := by
    rw [cellsUsed_putBack member] at free
    have other : cell ≠ m.cell := by
      rintro rfl
      exact free (List.mem_map_of_mem (List.mem_of_getElem? member))
    rw [counters_putBack_of_ne s other, sound.unused cell free]

theorem Sound.enroll (sound : f.Sound) (o : Opening R) : (f.enroll o).Sound := by
  obtain ⟨g, sources, notices, m, stocked, opened, used, after⟩ := f.enroll_eq o
  have stock := sound.stocked stocked
  rw [after]
  constructor
  · intro n there
    rcases List.mem_append.1 there with old | new
    · exact (sound.orderly n old).of_compactor rfl
    · rw [List.mem_singleton.1 new]
      exact ((f.siteOf m).orderly_opened o).of_compactor opened
  · intro n there
    rcases List.mem_append.1 there with old | new
    · exact Nat.lt_of_lt_of_le (sound.cells n old) stocked.length_le
    · rw [List.mem_singleton.1 new]
      rcases used with known | small
      · exact Nat.lt_of_lt_of_le (sound.registered _ _ known) stocked.length_le
      · exact small
  · intro h handle
    simp only [List.length_append, List.length_singleton]
    rcases List.mem_append.1 handle with old | new
    · exact Nat.lt_succ_of_lt (sound.handles h old)
    · rw [List.mem_singleton.1 new]
      exact Nat.lt_succ_self _
  · exact stock.registered
  · intro cell free
    apply stock.unused cell
    rw [cellsUsed, stocked.members]
    intro known
    apply free
    rw [cellsUsed, List.map_append]
    exact List.mem_append_left _ known

end Invariants

/-- What a call does to the member that is called: it takes place if a handle is held, or takes a
job from the queue, or nothing happens. -/
theorem deliver_cases (member : f.members[k]? = some m) (call : Call R) :
    (f.isHeld k = true ∧ f.deliver k call = f.putBack k m ((f.siteOf m).perform call)) ∨
      (f.isHeld k = false ∧ ∃ id told,
        f.deliver k call = f.putBack k m (((f.siteOf m).withdraw id).noteAll told)) ∨
      f.deliver k call = f := by
  cases held : f.isHeld k with
  | true => exact .inl ⟨rfl, deliver_of_held held member call⟩
  | false =>
    cases resolves : call.resolves with
    | none => exact .inr (.inr (deliver_nothing held resolves))
    | some id =>
      obtain ⟨told, after⟩ := deliver_late held member resolves
      exact .inr (.inl ⟨rfl, id, told, after⟩)

theorem Sound.deliver (sound : f.Sound) (k : Nat) (call : Call R) : (f.deliver k call).Sound := by
  cases member : f.members[k]? with
  | none =>
    rw [deliver_of_none member]
    exact sound
  | some m =>
    have orderly := sound.orderly m (List.mem_of_getElem? member)
    rcases deliver_cases member call with ⟨_, after⟩ | ⟨_, id, told, after⟩ | after
    · have acts : Relation.ReflTransGen (Site.Act True) (f.siteOf m) ((f.siteOf m).perform call) :=
        Site.acts_perform orderly call fun _ => trivial
      rw [after]
      exact sound.putBack member (orderly.acts acts)
    · rw [after]
      exact sound.putBack member ((orderly.withdraw id).of_compactor rfl)
    · rw [after]
      exact sound

theorem Sound.perform (sound : f.Sound) (errand : Errand R) : (f.perform errand).Sound := by
  cases errand with
  | enroll o => exact sound.enroll o
  | call k call => exact sound.deliver k call
  | duplicate index =>
    rw [Fleet.perform]
    split
    · next handle found =>
      split
      · refine ⟨sound.orderly, sound.cells, fun h handles => ?_, sound.registered, sound.unused⟩
        rcases List.mem_append.1 handles with old | new
        · exact sound.handles h old
        · rw [List.mem_singleton.1 new]
          exact sound.handles handle (List.mem_of_getElem? found)
      · exact sound
    · exact sound
  | release index =>
    obtain ⟨handles, notices, after, freed⟩ := f.release_eq index
    rw [Fleet.perform, after]
    refine ⟨?_, sound.cells, fun h handle => ?_, sound.registered, sound.unused⟩
    · exact fun m member => (sound.orderly m member).of_compactor rfl
    · rcases freed h handle with old | ⟨_, other, known, same⟩
      · exact sound.handles h old
      · exact same ▸ sound.handles other known
  | register store => exact sound.stocked (f.stocked_counted store).1
  | elsewhere sources shelf clock =>
    refine ⟨?_, sound.cells, sound.handles, sound.registered, sound.unused⟩
    exact fun m member => (sound.orderly m member).of_compactor rfl

theorem Sound.run (sound : f.Sound) (errands : List (Errand R)) : (f.run errands).Sound := by
  induction errands generalizing f with
  | nil => exact sound
  | cons errand rest ih => exact ih (sound.perform errand)

/-- A compactor that has gone away does not come back. -/
theorem held_of_perform (there : k < f.members.length) (errand : Errand R)
    (held : (f.perform errand).isHeld k = true) : f.isHeld k = true := by
  simp only [isHeld, List.any_eq_true, Bool.and_eq_true, beq_iff_eq] at held ⊢
  obtain ⟨h, known, same, holds⟩ := held
  cases errand with
  | enroll o =>
    obtain ⟨g, sources, notices, m, stocked, opened, used, after⟩ := f.enroll_eq o
    rw [Fleet.perform, after] at known
    rcases List.mem_append.1 known with old | new
    · exact ⟨h, old, same, holds⟩
    · rw [List.mem_singleton.1 new] at same
      exact absurd same (Nat.ne_of_gt there)
  | call j call =>
    have handles : (f.deliver j call).handles = f.handles := by
      cases member : f.members[j]? with
      | none => rw [deliver_of_none member]
      | some m =>
        obtain ⟨s, after⟩ := deliver_eq_putBack member call
        rw [after]
        rfl
    exact ⟨h, handles ▸ known, same, holds⟩
  | duplicate index =>
    rw [Fleet.perform] at known
    split at known
    · next handle found =>
      split at known
      · next taken =>
        rcases List.mem_append.1 known with old | new
        · exact ⟨h, old, same, holds⟩
        · rw [List.mem_singleton.1 new] at same
          exact ⟨handle, List.mem_of_getElem? found, same, taken⟩
      · exact ⟨h, known, same, holds⟩
    · exact ⟨h, known, same, holds⟩
  | release index =>
    obtain ⟨handles, notices, after, freed⟩ := f.release_eq index
    rw [Fleet.perform, after] at known
    rcases freed h known with old | ⟨free, _⟩
    · exact ⟨h, old, same, holds⟩
    · exact absurd (free.symm.trans holds) Bool.false_ne_true
  | register store =>
    rw [Fleet.perform, (f.stocked_counted store).1.handles] at known
    exact ⟨h, known, same, holds⟩
  | elsewhere => exact ⟨h, known, same, holds⟩

/-- Nothing but openings and calls concerns the members and what is counted. -/
theorem perform_other (f : Fleet R) {errand : Errand R} (enrolls : ∀ o, errand ≠ .enroll o)
    (calls : ∀ k call, errand ≠ .call k call) :
    (f.perform errand).members = f.members ∧
      ∀ cell, (f.perform errand).cells.getD cell {} = f.cells.getD cell {} := by
  cases errand with
  | enroll o => exact absurd rfl (enrolls o)
  | call k call => exact absurd rfl (calls k call)
  | duplicate index =>
    rw [perform]
    split
    · split
      · exact ⟨rfl, fun _ => rfl⟩
      · exact ⟨rfl, fun _ => rfl⟩
    · exact ⟨rfl, fun _ => rfl⟩
  | release index =>
    obtain ⟨handles, notices, after, _⟩ := f.release_eq index
    rw [perform, after]
    exact ⟨rfl, fun _ => rfl⟩
  | register store =>
    have stocked := (f.stocked_counted store).1
    exact ⟨stocked.members, stocked.getD⟩
  | elsewhere => exact ⟨rfl, fun _ => rfl⟩

/-- What an errand does to a member. Either it is called through a handle, or one of its jobs is
resolved without one, or nothing happens to it; then its counters stay as they are, if it does not
share them. -/
theorem perform_cases (member : f.members[k]? = some m) (errand : Errand R) :
    (∃ call, errand = .call k call ∧ f.isHeld k = true ∧
        f.perform errand = f.putBack k m ((f.siteOf m).perform call)) ∨
      (f.isHeld k = false ∧ ∃ id told,
        f.perform errand = f.putBack k m (((f.siteOf m).withdraw id).noteAll told)) ∨
      ((f.perform errand).members[k]? = some m ∧
        (f.Owns k → (f.perform errand).cells.getD m.cell {} = f.cells.getD m.cell {})) := by
  have small : k < f.members.length := (List.getElem?_eq_some_iff.1 member).1
  have untouched (enrolls : ∀ o, errand ≠ .enroll o) (calls : ∀ j call, errand ≠ .call j call) :
      (f.perform errand).members[k]? = some m ∧
        (f.Owns k → (f.perform errand).cells.getD m.cell {} = f.cells.getD m.cell {}) := by
    obtain ⟨members, cells⟩ := f.perform_other enrolls calls
    exact ⟨by rw [members, member], fun _ => cells m.cell⟩
  cases errand with
  | enroll o =>
    obtain ⟨g, sources, notices, n, stocked, opened, used, after⟩ := f.enroll_eq o
    refine .inr (.inr ?_)
    rw [perform, after]
    refine ⟨?_, fun _ => stocked.getD m.cell⟩
    rw [List.getElem?_append_left small, member]
  | call j call =>
    by_cases same : j = k
    · subst same
      rcases deliver_cases member call with ⟨held, after⟩ | ⟨released, id, told, after⟩ | after
      · exact .inl ⟨call, rfl, held, after⟩
      · exact .inr (.inl ⟨released, id, told, after⟩)
      · refine .inr (.inr ?_)
        rw [perform, after]
        exact ⟨member, fun _ => rfl⟩
    · refine .inr (.inr ?_)
      rw [perform]
      cases other : f.members[j]? with
      | none =>
        rw [deliver_of_none other]
        exact ⟨member, fun _ => rfl⟩
      | some n =>
        obtain ⟨s, after⟩ := deliver_eq_putBack other call
        rw [after]
        refine ⟨by rw [members_putBack_of_ne s (Ne.symm same), member], fun owns => ?_⟩
        apply counters_putBack_of_ne
        intro shared
        have mine : f.cellsUsed[k]? = some m.cell := by simp [cellsUsed, member]
        have its : f.cellsUsed[j]? = some m.cell := by simp [cellsUsed, other, shared]
        exact same (owns m.cell mine j its)
  | _ => exact .inr (.inr (untouched (by simp) (by simp)))

/-- What holds at an orderly site, depends on the compactor only, and does not end by acts or as a
job is taken from the queue. -/
structure Lasting (P : Site R → Prop) : Prop where
  of_compactor : ∀ {s t : Site R}, P s → t.compactor = s.compactor → P t
  act : ∀ {s t : Site R}, s.Orderly → P s → Site.Act True s t → P t
  withdraw : ∀ {s : Site R}, P s → ∀ id, P (s.withdraw id)

namespace Lasting

variable {P : Site R → Prop}

theorem perform (lasting : Lasting P) (sound : f.Sound) (member : f.members[k]? = some m)
    (holds : P (f.siteOf m)) (errand : Errand R) :
    ∃ n, (f.perform errand).members[k]? = some n ∧ P ((f.perform errand).siteOf n) := by
  have orderly := sound.orderly m (List.mem_of_getElem? member)
  rcases perform_cases member errand with
    ⟨call, _, _, after⟩ | ⟨_, id, told, after⟩ | ⟨same, _⟩
  · have acts : Relation.ReflTransGen (Site.Act True) (f.siteOf m) ((f.siteOf m).perform call) :=
      Site.acts_perform orderly call fun _ => trivial
    have performed := Site.invariant lasting.act acts orderly holds
    rw [after]
    exact ⟨_, members_putBack member _, lasting.of_compactor performed rfl⟩
  · rw [after]
    exact ⟨_, members_putBack member _, lasting.of_compactor (lasting.withdraw holds id) rfl⟩
  · exact ⟨m, same, lasting.of_compactor holds rfl⟩

theorem run (lasting : Lasting P) (sound : f.Sound) (member : f.members[k]? = some m)
    (holds : P (f.siteOf m)) (errands : List (Errand R)) :
    ∃ n, (f.run errands).members[k]? = some n ∧ P ((f.run errands).siteOf n) := by
  induction errands generalizing f m with
  | nil => exact ⟨m, member, holds⟩
  | cons errand rest ih =>
    obtain ⟨n, there, still⟩ := lasting.perform sound member holds errand
    exact ih (sound.perform errand) there still

end Lasting

/-- Only an opening adds a member. -/
theorem perform_new {errand : Errand R} (none : f.members[k]? = none)
    (new : (f.perform errand).members[k]? = some m) :
    ∃ o, errand = .enroll o ∧ k = f.members.length ∧ m.compactor = o.compactor := by
  have large : f.members.length ≤ k := List.getElem?_eq_none_iff.1 none
  have untouched (enrolls : ∀ o, errand ≠ .enroll o) (calls : ∀ j call, errand ≠ .call j call) :
      (f.perform errand).members = f.members := (f.perform_other enrolls calls).1
  cases errand with
  | enroll o =>
    obtain ⟨g, sources, notices, n, stocked, opened, used, after⟩ := f.enroll_eq o
    rw [perform, after, List.getElem?_append_right large, List.getElem?_singleton] at new
    split at new
    · next first =>
      cases Option.some.inj new
      exact ⟨o, rfl, by omega, opened⟩
    · contradiction
  | call j call =>
    rw [perform] at new
    cases member : f.members[j]? with
    | none =>
      rw [deliver_of_none member, none] at new
      contradiction
    | some n =>
      obtain ⟨s, after⟩ := deliver_eq_putBack member call
      have other : k ≠ j := fun same => by simp [same, member] at none
      rw [after, members_putBack_of_ne s other, none] at new
      contradiction
  | _ =>
    rw [untouched (by simp) (by simp), none] at new
    contradiction

/-- Members stay in their places and with their counters. -/
theorem cellsUsed_perform (f : Fleet R) (errand : Errand R) :
    f.cellsUsed <+: (f.perform errand).cellsUsed := by
  have unchanged {g : Fleet R} (same : g.cellsUsed = f.cellsUsed) :
      f.cellsUsed <+: g.cellsUsed := same ▸ List.prefix_rfl
  have untouched (enrolls : ∀ o, errand ≠ .enroll o) (calls : ∀ j call, errand ≠ .call j call) :
      (f.perform errand).cellsUsed = f.cellsUsed := by
    rw [cellsUsed, cellsUsed, (f.perform_other enrolls calls).1]
  cases errand with
  | enroll o =>
    obtain ⟨g, sources, notices, m, stocked, opened, used, after⟩ := f.enroll_eq o
    rw [perform, after, cellsUsed, cellsUsed, List.map_append]
    exact List.prefix_append _ _
  | call k call =>
    cases member : f.members[k]? with
    | none => exact unchanged (by rw [perform, deliver_of_none member])
    | some m =>
      obtain ⟨s, after⟩ := deliver_eq_putBack member call
      exact unchanged (by rw [perform, after, cellsUsed_putBack member])
  | _ => exact unchanged (untouched (by simp) (by simp))

omit [Quantity R] in
/-- A member that does not share its counters in the end has never shared them. -/
theorem Owns.of_prefix {g : Fleet R} (owns : g.Owns k) (earlier : f.cellsUsed <+: g.cellsUsed) :
    f.Owns k := by
  intro cell mine j its
  obtain ⟨more, whole⟩ := earlier
  have later {i : Nat} (used : f.cellsUsed[i]? = some cell) : g.cellsUsed[i]? = some cell := by
    rw [← whole, List.getElem?_append_left (List.getElem?_eq_some_iff.1 used).1, used]
  exact owns cell (later mine) j (later its)

/-- What lasts and holds of a compactor that has just been opened holds of all members. -/
theorem Lasting.everywhere {P : Site R → Prop} (lasting : Lasting P)
    (opened : ∀ (s : Site R) (o : Opening R), P (s.opened o)) (sound : f.Sound)
    (holds : ∀ m ∈ f.members, P (f.siteOf m)) (errands : List (Errand R)) :
    ∀ m ∈ (f.run errands).members, P ((f.run errands).siteOf m) := by
  induction errands generalizing f with
  | nil => exact holds
  | cons errand rest ih =>
    refine ih (sound.perform errand) fun n there => ?_
    obtain ⟨k, place⟩ := List.getElem?_of_mem there
    cases member : f.members[k]? with
    | none =>
      obtain ⟨o, _, _, compactor⟩ := perform_new member place
      exact lasting.of_compactor (opened (f.siteOf n) o) compactor
    | some m =>
      obtain ⟨after, same, still⟩ :=
        lasting.perform sound member (holds m (List.mem_of_getElem? member)) errand
      rw [place, Option.some.injEq] at same
      exact same ▸ still

end Fleet

end TieredCompaction
