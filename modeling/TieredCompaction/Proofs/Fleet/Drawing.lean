import TieredCompaction.Proofs.Fleet.Errands
import TieredCompaction.Proofs.Site.Drawing
/-!
Compactors that share one source of IDs. Whoever draws from it, IDs come in ascending order, so that
tables with IDs drawn for them never meet a live one.
-/
namespace TieredCompaction

/-- Whether an errand is one of compactors that share the first source and draw from it only. -/
def Errand.shares {R : Type} : Errand R → Bool
  | enroll o => o.source == some 0
  | call _ made => !made.isElsewhere
  | elsewhere .. => false
  | _ => true

namespace Fleet

/-- A step of a fleet whose members share a source of IDs. -/
inductive Turn (R : Type) where
  | draw
  /-- A member draws an ID, or one of its jobs does. -/
  | drawAt (member : Nat)
  | raise (id : Nat)
  /-- Time passes, tables are read, and others make new ones. -/
  | meanwhile (shelf : Shelf R) (clock : Clock)
  | errand (errand : Errand R)

variable {R : Type} [Quantity R]

/-- The shared source. -/
def source (f : Fleet R) : IdSource :=
  f.sources.getD 0 ⟨0⟩

def take (f : Fleet R) : Turn R → Fleet R
  | .draw => { f with sources := f.sources.modify 0 (·.draw.2) }
  | .drawAt k => f.change k (·.drawId.2)
  | .raise id => { f with sources := f.sources.modify 0 (·.raise id) }
  | .meanwhile shelf clock => { f with shelf, clock }
  | .errand errand => f.perform errand

/-- What a turn does with IDs. -/
def dealings (f : Fleet R) : Turn R → List Dealing
  | .draw => [.drew f.source.draw.1]
  | .drawAt k => ((f.members[k]?).map fun m => .drew (f.siteOf m).drawId.1).toList
  | .raise id => [.raised id]
  | .errand (.call k call) =>
    match f.members[k]? with
    | some m => if f.isHeld k then (f.siteOf m).dealings call else []
    | none => []
  | _ => []

def takeAll (f : Fleet R) (turns : List (Turn R)) : Fleet R :=
  turns.foldl take f

/-- What is done with IDs, in order. -/
def dealt (f : Fleet R) : List (Turn R) → List Dealing
  | [] => []
  | turn :: rest => f.dealings turn ++ (f.take turn).dealt rest

/-- Whether all errands are of compactors that share the source. -/
def Turn.shares : Turn R → Bool
  | errand e => e.shares
  | _ => true

/-- There is a source, and all members use it. -/
structure Sharing (f : Fleet R) : Prop where
  stocked : 0 < f.sources.length
  members : ∀ m ∈ f.members, m.source = 0

variable {f : Fleet R} {k : Nat} {m : Member R} {turn : Turn R}

section Frame

omit [Quantity R]

theorem Sharing.ids (sharing : f.Sharing) (member : f.members[k]? = some m) :
    (f.siteOf m).ids = f.source := by
  rw [siteOf, sharing.members m (List.mem_of_getElem? member)]
  rfl

theorem Sharing.putBack (sharing : f.Sharing) (member : f.members[k]? = some m) (s : Site R) :
    (f.putBack k m s).Sharing ∧ (f.putBack k m s).source = s.ids := by
  have mine := sharing.members m (List.mem_of_getElem? member)
  refine ⟨⟨?_, fun n there => ?_⟩, ?_⟩
  · simpa [Fleet.putBack] using sharing.stocked
  · rcases List.mem_or_eq_of_mem_set there with old | rfl
    · exact sharing.members n old
    · exact mine
  · simp [Fleet.putBack, source, mine, List.getD_eq_getElem?_getD, sharing.stocked]

theorem Sharing.modify (sharing : f.Sharing) (change : IdSource → IdSource) :
    ({ f with sources := f.sources.modify 0 change } : Fleet R).Sharing ∧
      ({ f with sources := f.sources.modify 0 change } : Fleet R).source = change f.source := by
  refine ⟨⟨?_, sharing.members⟩, ?_⟩
  · simpa using sharing.stocked
  · simp [source, List.getD_eq_getElem?_getD, sharing.stocked]

theorem counted_eq (f : Fleet R) (store : StoreName) :
    ∃ cells registry, (f.counted store).2 = { f with cells, registry } := by
  rw [counted]
  split
  · exact ⟨_, _, rfl⟩
  · exact ⟨_, _, rfl⟩

/-- A new member that shares the source. -/
theorem enroll_shared (f : Fleet R) {o : Opening R} (shared : o.source = some 0) :
    ∃ cells registry cell, f.enroll o = { f with
      cells, registry
      handles := f.handles ++ [{ member := f.members.length, held := true }]
      members := f.members ++ [{ compactor := o.compactor, cell, source := 0 }]
      notices := f.notices ++ [.opened o.store] } := by
  have stocked : ∃ cells registry, (f.cellFor o).2 = { f with cells, registry } := by
    rw [cellFor]
    split
    · exact f.counted_eq o.store
    · exact ⟨_, _, rfl⟩
  obtain ⟨cells, registry, after⟩ := stocked
  refine ⟨cells, registry, (f.cellFor o).1, ?_⟩
  rw [enroll]
  simp only [sourceFor, shared, after]

/-- What is done to a member tells of no clash. -/
theorem told_change (f : Fleet R) (k : Nat) {operation : Site R → Site R}
    (ns : Site R → List (Notice R))
    (notices : ∀ s, (operation s).notices = s.notices ++ ns s)
    (harmless : ∀ s, ∀ n ∈ ns s, n.clashes = false) :
    ∀ n ∈ (f.change k operation).notices, n.clashes = true → n ∈ f.notices := by
  cases member : f.members[k]? with
  | none =>
    rw [change_of_none member]
    exact fun n told _ => told
  | some m =>
    rw [change_eq member]
    intro n told clashes
    have told : n ∈ (operation (f.siteOf m)).notices := told
    rw [notices] at told
    refine (List.mem_append.1 told).resolve_right fun new => ?_
    rw [harmless _ n new] at clashes
    contradiction

end Frame

/-- Resolving a job too late is told as such. -/
theorem told_late (released : f.isHeld k = false) (call : Call R) :
    ∀ n ∈ (f.deliver k call).notices, n.clashes = true → n ∈ f.notices := by
  have told_onJob {id : Nat} {resolve : Job R → Fleet R}
      (told : ∀ job, ∀ n ∈ (resolve job).notices, n.clashes = true → n ∈ f.notices) :
      ∀ n ∈ (f.onJob k id resolve).notices, n.clashes = true → n ∈ f.notices := by
    rw [onJob]
    split
    · exact told _
    · exact fun n told _ => told
  cases call with
  | completeJob id outputs =>
    refine told_onJob fun job => ?_
    simp only [completeJob, released, Bool.false_eq_true, if_false]
    exact f.told_change k (fun s => [.completedLate job.id]) (fun s => rfl)
      (by simp [Notice.clashes])
  | failJob id cause =>
    refine told_onJob fun job => ?_
    simp only [failJob, released, Bool.false_eq_true, if_false]
    exact f.told_change k (fun s => [.failedLate job.id]) (fun s => rfl) (by simp [Notice.clashes])
  | dropJob id =>
    refine told_onJob fun job => ?_
    simp only [dropJob, released, Bool.false_eq_true, if_false]
    exact f.told_change k (fun s => []) (fun s => (List.append_nil _).symm) (by simp)
  | _ =>
    rw [deliver_nothing released rfl]
    exact fun n told _ => told

omit [Quantity R] in
theorem told_release (f : Fleet R) (index : Nat) :
    ∀ n ∈ (f.release index).notices, n.clashes = true → n ∈ f.notices := by
  rw [release]
  split
  · exact fun n told _ => told
  · next handle found =>
    split
    · dsimp only
      split
      · exact fun n told _ => told
      · exact told_change { f with handles := f.handles.set index { handle with held := false } }
          handle.member (fun s => [.closed s.compactor.store]) (fun s => rfl)
          (by simp [Notice.clashes])
    · exact fun n told _ => told

/-- A call draws from the shared source if it reaches the member. -/
theorem Sharing.deliver (sharing : f.Sharing) (sound : f.Sound) (k : Nat) {call : Call R}
    (own : call.isElsewhere = false) :
    (f.deliver k call).Sharing ∧
      f.source.Deals (f.dealings (.errand (.call k call))) (f.deliver k call).source := by
  have same : f.Sharing ∧ f.source.Deals [] f.source := ⟨sharing, .nil⟩
  rw [dealings]
  cases member : f.members[k]? with
  | none =>
    rw [deliver_of_none member]
    exact same
  | some m =>
    have orderly := sound.orderly m (List.mem_of_getElem? member)
    have mine := sharing.ids member
    cases held : f.isHeld k with
    | true =>
      obtain ⟨sharing, after⟩ := sharing.putBack member ((f.siteOf m).perform call)
      rw [deliver_of_held held member]
      refine ⟨sharing, ?_⟩
      rw [after, ← mine]
      exact Site.deals_perform orderly own
    | false =>
      cases resolves : call.resolves with
      | none =>
        rw [deliver_nothing held resolves]
        exact same
      | some id =>
        obtain ⟨told, late⟩ := deliver_late held member resolves
        obtain ⟨sharing, after⟩ :=
          sharing.putBack member (((f.siteOf m).withdraw id).noteAll told)
        rw [late]
        refine ⟨sharing, ?_⟩
        rw [after, ← mine]
        exact .nil

/-- Members and sources stay as they are, and no clash is told. -/
structure Quiet (f g : Fleet R) : Prop where
  members : g.members = f.members
  sources : g.sources = f.sources
  told : ∀ n ∈ g.notices, n.clashes = true → n ∈ f.notices

omit [Quantity R] in
theorem Quiet.deals {g : Fleet R} (quiet : Quiet f g) (sharing : f.Sharing) :
    g.Sharing ∧ f.source.Deals [] g.source := by
  have same : g.source = f.source := by rw [source, source, quiet.sources]
  rw [same]
  exact ⟨⟨quiet.sources ▸ sharing.stocked, quiet.members ▸ sharing.members⟩, .nil⟩

/-- Nothing but openings and calls concerns members. -/
theorem quiet_perform (f : Fleet R) {errand : Errand R} (shares : errand.shares = true)
    (enrolls : ∀ o, errand ≠ .enroll o) (calls : ∀ k call, errand ≠ .call k call) :
    Quiet f (f.perform errand) := by
  cases errand with
  | enroll o => exact absurd rfl (enrolls o)
  | call k call => exact absurd rfl (calls k call)
  | duplicate index =>
    rw [perform]
    split
    · split
      · exact ⟨rfl, rfl, fun n told _ => told⟩
      · exact ⟨rfl, rfl, fun n told _ => told⟩
    · exact ⟨rfl, rfl, fun n told _ => told⟩
  | release index =>
    obtain ⟨handles, notices, after, _⟩ := f.release_eq index
    refine ⟨?_, ?_, f.told_release index⟩
    · rw [perform, after]
    · rw [perform, after]
  | register store =>
    obtain ⟨cells, registry, after⟩ := f.counted_eq store
    rw [perform, after]
    exact ⟨rfl, rfl, fun n told _ => told⟩
  | elsewhere => contradiction

/-- Whatever a turn is, it draws from the shared source. -/
theorem Sharing.deals (sharing : f.Sharing) (sound : f.Sound) (shares : turn.shares = true) :
    (f.take turn).Sharing ∧ f.source.Deals (f.dealings turn) (f.take turn).source := by
  cases turn with
  | draw =>
    obtain ⟨sharing, after⟩ := sharing.modify (·.draw.2)
    exact ⟨sharing, after ▸ .draw .nil⟩
  | drawAt k =>
    cases member : f.members[k]? with
    | none =>
      simp only [take, dealings, change_of_none member, member]
      exact ⟨sharing, .nil⟩
    | some m =>
      have mine := sharing.ids member
      obtain ⟨sharing, after⟩ := sharing.putBack member (f.siteOf m).drawId.2
      simp only [take, dealings, change_eq member, member]
      refine ⟨sharing, ?_⟩
      rw [after, ← mine]
      exact .draw .nil
  | raise id =>
    obtain ⟨sharing, after⟩ := sharing.modify (·.raise id)
    exact ⟨sharing, after ▸ .raise id .nil⟩
  | meanwhile shelf clock => exact ⟨⟨sharing.stocked, sharing.members⟩, .nil⟩
  | errand errand =>
    have shares : errand.shares = true := shares
    cases errand with
    | enroll o =>
      have shared : o.source = some 0 := by simpa [Errand.shares] using shares
      obtain ⟨cells, registry, cell, after⟩ := f.enroll_shared shared
      simp only [take, dealings, perform, after]
      refine ⟨⟨sharing.stocked, fun m there => ?_⟩, .nil⟩
      rcases List.mem_append.1 there with old | new
      · exact sharing.members m old
      · rw [List.mem_singleton.1 new]
    | call k call =>
      exact sharing.deliver sound k (by simpa [Errand.shares] using shares)
    | _ =>
      exact (f.quiet_perform shares (by simp) (by simp)).deals sharing

theorem Sound.take (sound : f.Sound) (turn : Turn R) : (f.take turn).Sound := by
  have sources (sources : List IdSource) : ({ f with sources } : Fleet R).Sound :=
    ⟨fun m member => (sound.orderly m member).of_compactor rfl, sound.cells, sound.handles,
      sound.registered, sound.unused⟩
  cases turn with
  | draw => exact sources _
  | drawAt k =>
    rw [Fleet.take]
    cases member : f.members[k]? with
    | none =>
      rw [change_of_none member]
      exact sound
    | some m =>
      rw [change_eq member]
      exact sound.putBack member ((sound.orderly m (List.mem_of_getElem? member)).of_compactor rfl)
  | raise id => exact sources _
  | meanwhile shelf clock =>
    exact ⟨fun m member => (sound.orderly m member).of_compactor rfl, sound.cells, sound.handles,
      sound.registered, sound.unused⟩
  | errand errand => exact sound.perform errand

/-- The live IDs of all members. -/
def liveIds (f : Fleet R) : List Nat :=
  f.members.flatMap (·.compactor.tables.liveIds)

/-- From one fleet to the other, tables come in under some IDs, and none stays out because its ID is
live. -/
structure Admits (f g : Fleet R) (ids : List Nat) : Prop where
  live : g.liveIds ⊆ f.liveIds ++ ids
  told : ∀ n ∈ g.notices, n.clashes = true → n ∈ f.notices

namespace Admits

variable {g h : Fleet R} {ids more : List Nat}

omit [Quantity R] in
theorem of_same (members : g.members = f.members)
    (told : ∀ n ∈ g.notices, n.clashes = true → n ∈ f.notices) : Admits f g [] where
  live := by
    rw [liveIds, members]
    exact List.subset_append_left _ _
  told

omit [Quantity R] in
theorem of_site (member : f.members[k]? = some m) {s : Site R}
    (admits : (f.siteOf m).Admits s ids) :
    Admits f (f.putBack k m s) ids where
  live id live := by
    obtain ⟨n, there, live⟩ := List.mem_flatMap.1 live
    have mine : m.compactor.tables.liveIds ⊆ f.liveIds := fun id live =>
      List.mem_flatMap.2 ⟨m, List.mem_of_getElem? member, live⟩
    rcases List.mem_or_eq_of_mem_set there with old | rfl
    · exact List.mem_append_left _ (List.mem_flatMap.2 ⟨n, old, live⟩)
    · rcases List.mem_append.1 (admits.live live) with before | new
      · exact List.mem_append_left _ (mine before)
      · exact List.mem_append_right _ new
  told := admits.told

/-- A call takes in tables under new IDs of their own. -/
theorem deliver (sound : f.Sound) (k : Nat) (call : Call R)
    (distinct : (Dealing.handedOver (f.dealings (.errand (.call k call)))).Nodup)
    (unused : f.liveIds.Disjoint (Dealing.handedOver (f.dealings (.errand (.call k call))))) :
    Admits f (f.deliver k call) (Dealing.handedOver (f.dealings (.errand (.call k call)))) := by
  have same : Admits f f [] := of_same rfl fun n told _ => told
  rw [dealings] at distinct unused ⊢
  cases member : f.members[k]? with
  | none =>
    rw [deliver_of_none member]
    exact same
  | some m =>
    have orderly := sound.orderly m (List.mem_of_getElem? member)
    cases held : f.isHeld k with
    | true =>
      simp only [member, held, if_true] at distinct unused
      have mine : (f.siteOf m).liveIds ⊆ f.liveIds := fun id live =>
        List.mem_flatMap.2 ⟨m, List.mem_of_getElem? member, live⟩
      rw [deliver_of_held held member]
      have apart : List.Disjoint (f.siteOf m).liveIds _ := fun id live => unused (mine live)
      exact of_site member (Site.admits_perform orderly distinct apart)
    | false =>
      refine ⟨?_, told_late held call⟩
      cases resolves : call.resolves with
      | none =>
        rw [deliver_nothing held resolves]
        exact same.live
      | some id =>
        have withdrawn : (f.siteOf m).Admits ((f.siteOf m).withdraw id) [] :=
          .of_same rfl (List.append_nil _).symm (List.forall_mem_nil _)
        obtain ⟨told, late⟩ := deliver_late held member resolves
        rw [late]
        exact (of_site member withdrawn).live

theorem take (sound : f.Sound) (shares : turn.shares = true)
    (distinct : (Dealing.handedOver (f.dealings turn)).Nodup)
    (unused : f.liveIds.Disjoint (Dealing.handedOver (f.dealings turn))) :
    Admits f (f.take turn) (Dealing.handedOver (f.dealings turn)) := by
  have same {g : Fleet R} (members : g.members = f.members)
      (told : ∀ n ∈ g.notices, n.clashes = true → n ∈ f.notices) : Admits f g [] :=
    of_same members told
  cases turn with
  | draw => exact same rfl fun n told _ => told
  | drawAt k =>
    simp only [Fleet.take, dealings]
    cases member : f.members[k]? with
    | none =>
      rw [change_of_none member]
      exact same rfl fun n told _ => told
    | some m =>
      have drawn : (f.siteOf m).Admits (f.siteOf m).drawId.2 [] :=
        .of_same rfl (List.append_nil _).symm (List.forall_mem_nil _)
      rw [change_eq member]
      exact of_site member drawn
  | raise id => exact same rfl fun n told _ => told
  | meanwhile shelf clock => exact same rfl fun n told _ => told
  | errand errand =>
    have shares : errand.shares = true := shares
    cases errand with
    | enroll o =>
      have shared : o.source = some 0 := by simpa [Errand.shares] using shares
      obtain ⟨cells, registry, cell, after⟩ := f.enroll_shared shared
      simp only [Fleet.take, perform, after]
      constructor
      · intro id live
        obtain ⟨n, there, live⟩ := List.mem_flatMap.1 live
        rcases List.mem_append.1 there with old | new
        · exact List.mem_append_left _ (List.mem_flatMap.2 ⟨n, old, live⟩)
        · rw [List.mem_singleton.1 new] at live
          exact absurd live List.not_mem_nil
      · intro n told clashes
        refine (List.mem_append.1 told).resolve_right fun new => ?_
        rw [List.mem_singleton.1 new] at clashes
        contradiction
    | call k call => exact deliver sound k call distinct unused
    | _ =>
      have quiet := f.quiet_perform shares (by simp) (by simp)
      exact same quiet.members quiet.told

theorem takeAll (sound : f.Sound) {turns : List (Turn R)}
    (shares : ∀ turn ∈ turns, turn.shares = true)
    (distinct : (Dealing.handedOver (f.dealt turns)).Nodup)
    (unused : f.liveIds.Disjoint (Dealing.handedOver (f.dealt turns))) :
    ∀ n ∈ (f.takeAll turns).notices, n.clashes = true → n ∈ f.notices := by
  induction turns generalizing f with
  | nil => exact fun n told _ => told
  | cons turn rest ih =>
    obtain ⟨now, later⟩ := List.forall_mem_cons.1 shares
    rw [dealt, Dealing.handedOver_append] at distinct unused
    obtain ⟨first, others, apart⟩ := List.nodup_append'.1 distinct
    obtain ⟨before, after⟩ := List.disjoint_append_right.1 unused
    have admits := take sound now first before
    have unmet : (f.take turn).liveIds.Disjoint
        (Dealing.handedOver ((f.take turn).dealt rest)) := by
      intro id live given
      rcases List.mem_append.1 (admits.live live) with old | new
      · exact after old given
      · exact apart new given
    intro n told clashes
    exact admits.told n (ih (sound.take turn) later others unmet n told clashes) clashes

end Admits

theorem Sharing.dealt (sharing : f.Sharing) (sound : f.Sound) {turns : List (Turn R)}
    (shares : ∀ turn ∈ turns, turn.shares = true) :
    f.source.Deals (f.dealt turns) (f.takeAll turns).source := by
  induction turns generalizing f with
  | nil => exact .nil
  | cons turn rest ih =>
    obtain ⟨now, later⟩ := List.forall_mem_cons.1 shares
    obtain ⟨sharing, first⟩ := sharing.deals sound now
    exact first.append (ih sharing (sound.take turn) later)

/-- Whoever draws IDs from a shared source, raises it and hands tables over, in whatever order, as
long as the source does not run out: IDs are drawn in ascending order, from where it starts, never
below what it was raised to, and the next one is above them all. If every table that is flushed or
comes of a merge has an ID that was drawn for it, then none of them meets a live one. -/
theorem run_ids_never_collide (clock : Clock) (start : IdSource) (turns : List (Turn R))
    (shares : ∀ turn ∈ turns, turn.shares = true)
    (unwrapped : ∀ id ∈ Dealing.drawn ((empty clock start).dealt turns), id + 1 < UInt64.size) :
    let f := (empty clock start).takeAll turns
    let dealings := (empty clock start).dealt turns
    dealings.Pairwise Dealing.Before ∧
      (∀ id ∈ Dealing.drawn dealings, start.next ≤ id ∧ id < f.source.next) ∧
      ((Dealing.handedOver dealings).Subperm (Dealing.drawn dealings) →
        ∀ t, .liveFlush t ∉ f.notices ∧ .liveOutput t ∉ f.notices) := by
  intro f dealings
  have sound : (empty clock start : Fleet R).Sound := sound_empty clock start
  have sharing : (empty clock start : Fleet R).Sharing :=
    ⟨Nat.zero_lt_one, fun m member => absurd member List.not_mem_nil⟩
  have deals : start.Deals dealings f.source := sharing.dealt sound shares
  obtain ⟨ordered, _, drawn⟩ := deals.ordered fun id drew => unwrapped id (Dealing.mem_drawn.2 drew)
  refine ⟨ordered, fun id drew => drawn id (Dealing.mem_drawn.1 drew), fun backed t => ?_⟩
  have silent := Admits.takeAll sound shares (Dealing.nodup_handedOver ordered backed)
    fun id live => absurd live List.not_mem_nil
  constructor
  · intro told
    exact List.not_mem_nil (silent _ told rfl)
  · intro told
    exact List.not_mem_nil (silent _ told rfl)

/-- Two members draw in turn. One is flushed into a queue that merges at once, the other is gone
when its job comes back with an output. -/
theorem shared_source_keeps_apart :
    let o : Opening Float := { Opening.sample .keep with source := some 0 }
    let clock : Clock := { instant := 0, moment := ⟨0⟩ }
    let turns : List (Turn Float) :=
      [.errand (.enroll o), .errand (.enroll { o with intake := .merge }), .draw, .drawAt 0, .draw,
        .drawAt 1, .errand (.call 0 .enable),
        .errand (.call 0 (.flush (Table.samples [100, 101, 102, 103]))), .raise 200, .drawAt 1,
        .drawAt 0, .errand (.call 1 .enable), .draw, .draw, .draw,
        .errand (.call 1 (.flush (Table.samples [200, 202, 203, 204]))), .errand (.release 0),
        .drawAt 0, .errand (.call 0 (.completeJob 0 (Table.samples [201]))), .raise 50, .draw]
    let dealings := (empty clock ⟨100⟩).dealt turns
    Dealing.drawn dealings = [100, 101, 102, 103, 200, 201, 202, 203, 204, 205, 206, 207] ∧
      Dealing.handedOver dealings = [100, 101, 102, 103, 200, 202, 203, 204, 205] ∧
      dealings.Pairwise Dealing.Before ∧
      ∀ t, .liveOutput t ∉ ((empty clock ⟨100⟩).takeAll turns).notices := by
  intro o clock turns dealings
  obtain ⟨ordered, _, silent⟩ :=
    run_ids_never_collide clock ⟨100⟩ turns (by decide) (by decide +kernel)
  exact ⟨by decide +kernel, by decide +kernel, ordered, fun t => (silent (by decide +kernel) t).2⟩

end Fleet

end TieredCompaction
