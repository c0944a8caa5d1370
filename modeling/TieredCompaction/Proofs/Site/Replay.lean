import TieredCompaction.Proofs.Site.Calls
/-!
The events of a compactor tell which tables are live. Whoever replays them into a map from IDs to
sizes has the live tables, whenever compaction is enabled.
-/
namespace TieredCompaction

/-- The sizes of tables, by ID. -/
def Inventory : Type :=
  Nat → Option Nat

namespace Inventory

def empty : Inventory :=
  fun _ => none

def put (m : Inventory) (d : Descriptor) : Inventory :=
  fun id => if id = d.generation then some d.size else m id

theorem put_descriptor (m : Inventory) (t : Table) (id : Nat) :
    m.put t.descriptor id = if id = t.id then some t.size else m id := rfl

/-- Puts a table in, unless its ID is taken. -/
def offer (m : Inventory) (d : Descriptor) : Inventory :=
  if (m d.generation).isSome then m else m.put d

def erase (m : Inventory) (generation : Nat) : Inventory :=
  fun id => if id = generation then none else m id

/-- Follows a report: compaction starts with the tables reported when it is enabled; flushed tables
come in; a merge takes its inputs out and puts its outputs in, as far as their IDs are not taken. -/
def follow (m : Inventory) : Report → Inventory
  | .enable strategies => (strategies.flatMap (·.tables)).foldl put empty
  | .flush tables => (tables.map (·.table)).foldl put m
  | .compaction _ _ input output =>
    (output.map (·.table)).foldl offer ((input.map (·.table.generation)).foldl erase m)
  | .disable _ => m
  | .pending .. => m

/-- Follows events, oldest first. -/
def replay (events : List Event) : Inventory :=
  events.foldl (fun m e => m.follow e.report) empty

theorem replay_concat (events : List Event) (e : Event) :
    replay (events ++ [e]) = (replay events).follow e.report :=
  List.foldl_concat ..

/-- The map has the sizes of exactly the tables given. -/
def Shows (m : Inventory) (tables : List Table) : Prop :=
  ∀ id size, m id = some size ↔ ∃ t ∈ tables, t.id = id ∧ t.size = size

variable {m : Inventory} {tables : List Table} {t : Table}

theorem shows_empty : Shows empty [] := by
  simp [Shows, empty]

theorem Shows.perm {others : List Table} (shows : m.Shows tables) (same : tables.Perm others) :
    m.Shows others := by
  intro id size
  simp only [shows id size, same.mem_iff]

theorem Shows.isSome_iff (shows : m.Shows tables) {id : Nat} :
    (m id).isSome = true ↔ id ∈ tables.map (·.id) := by
  rw [Option.isSome_iff_exists, List.mem_map]
  constructor
  · rintro ⟨size, found⟩
    obtain ⟨t, member, same, _⟩ := (shows id size).1 found
    exact ⟨t, member, same⟩
  · rintro ⟨t, member, same⟩
    exact ⟨t.size, (shows id t.size).2 ⟨t, member, same, rfl⟩⟩

theorem Shows.put (shows : m.Shows tables) (absent : t.id ∉ tables.map (·.id)) :
    (m.put t.descriptor).Shows (tables ++ [t]) := by
  intro id size
  simp only [put_descriptor, List.mem_append, List.mem_singleton]
  by_cases same : id = t.id
  · rw [if_pos same]
    constructor
    · intro found
      exact ⟨t, .inr rfl, same.symm, Option.some.inj found⟩
    · rintro ⟨u, member | rfl, sameId, sameSize⟩
      · exact absurd (List.mem_map.2 ⟨u, member, sameId.trans same⟩) absent
      · rw [sameSize]
  · rw [if_neg same, shows id size]
    constructor
    · rintro ⟨u, member, sameBoth⟩
      exact ⟨u, .inl member, sameBoth⟩
    · rintro ⟨u, member | rfl, sameId, sameSize⟩
      · exact ⟨u, member, sameId, sameSize⟩
      · exact absurd sameId.symm same

theorem Shows.offer_new (shows : m.Shows tables) (absent : t.id ∉ tables.map (·.id)) :
    (m.offer t.descriptor).Shows (tables ++ [t]) := by
  have free : ¬ (m t.descriptor.generation).isSome = true := fun h => absent (shows.isSome_iff.1 h)
  rw [offer, if_neg free]
  exact shows.put absent

theorem Shows.offer_taken (shows : m.Shows tables) (present : t.id ∈ tables.map (·.id)) :
    m.offer t.descriptor = m :=
  if_pos (shows.isSome_iff.2 present)

theorem Shows.erase (shows : m.Shows tables) (id : Nat) :
    (m.erase id).Shows (tables.filter (·.id != id)) := by
  intro other size
  simp only [Inventory.erase, List.mem_filter, bne_iff_ne]
  split
  · next same =>
    refine ⟨fun found => absurd found.symm (Option.some_ne_none size), ?_⟩
    rintro ⟨t, ⟨_, differ⟩, sameId, _⟩
    exact absurd (sameId.trans same) differ
  · next differ =>
    rw [shows other size]
    constructor
    · rintro ⟨t, member, sameId, sameSize⟩
      exact ⟨t, ⟨member, fun h => differ (sameId.symm.trans h)⟩, sameId, sameSize⟩
    · rintro ⟨t, ⟨member, _⟩, same⟩
      exact ⟨t, member, same⟩

theorem Shows.put_all (shows : m.Shows tables) {new : List Table}
    (distinct : ((tables ++ new).map (·.id)).Nodup) :
    ((new.map (·.descriptor)).foldl Inventory.put m).Shows (tables ++ new) := by
  induction new generalizing m tables with
  | nil => simpa using shows
  | cons t rest ih =>
    have absent : t.id ∉ tables.map (·.id) := by
      rw [List.map_append, List.map_cons] at distinct
      exact fun member =>
        (List.nodup_append.1 distinct).2.2 t.id member t.id List.mem_cons_self rfl
    rw [List.append_cons] at distinct ⊢
    exact ih (shows.put absent) distinct

theorem Shows.erase_all {s : TableSet} (shows : m.Shows s.live) (inputs : List Table) :
    ((inputs.map (·.id)).foldl Inventory.erase m).Shows (s.removeAll inputs).1.live := by
  induction inputs generalizing m s with
  | nil => exact shows
  | cons t rest ih => exact ih (s := s.remove t) (shows.erase t.id)

/-- Outputs of a merge come in one by one, unless they are live. -/
theorem Shows.offer_all {s : TableSet} (shows : m.Shows s.live) {outputs : List Table}
    (full : ∀ t ∈ outputs, t.size ≠ 0) :
    ((outputs.map (·.descriptor)).foldl Inventory.offer m).Shows (s.receive outputs).1.live := by
  induction outputs generalizing m s with
  | nil => exact shows
  | cons t rest ih =>
    have others : ∀ u ∈ rest, u.size ≠ 0 := fun u member => full u (List.mem_cons_of_mem _ member)
    obtain ⟨empty, _⟩ | ⟨_, live, eq⟩ | ⟨_, absent, eq⟩ := s.receive_cons t rest
    · exact absurd empty (full t List.mem_cons_self)
    · rw [eq, List.map_cons, List.foldl_cons, shows.offer_taken live]
      exact ih shows others
    · rw [eq, List.map_cons, List.foldl_cons]
      exact ih (s := { s with live := s.live ++ [t] }) (shows.offer_new absent) others

end Inventory

namespace Site

open Inventory (replay)

variable {R : Type} {s t : Site R}

/-- As long as compaction is enabled, the events show the live tables. -/
def Replicated (s : Site R) : Prop :=
  s.compactor.enabled = true → (replay s.compactor.events).Shows s.compactor.tables.live

namespace Replicated

private theorem of_same_events (replicated : s.Replicated)
    (enabled : t.compactor.enabled = s.compactor.enabled)
    (live : t.compactor.tables.live = s.compactor.tables.live)
    (events : t.compactor.events = s.compactor.events) : t.Replicated := by
  intro on
  rw [live, events]
  exact replicated (enabled ▸ on)

private theorem merge (replicated : s.Replicated) (start : Moment) (inputs : List Table)
    (stop : Moment) (outputs : List Table)
    (enabled : t.compactor.enabled = s.compactor.enabled)
    (tables : t.compactor.tables =
      ((s.compactor.tables.removeAll inputs).1.receive (keptOutputs outputs)).1)
    (events : t.compactor.events = s.compactor.events ++
      s.mergeReports start inputs stop (keptOutputs outputs)) : t.Replicated := by
  intro on
  have on : s.compactor.enabled = true := enabled ▸ on
  have full : ∀ u ∈ keptOutputs outputs, u.size ≠ 0 := by
    intro u member
    have positive := (List.mem_filter.1 member).2
    simp only [decide_eq_true_eq] at positive
    omega
  have after := ((replicated on).erase_all inputs).offer_all full
  rw [tables, events, mergeReports, if_pos on, Inventory.replay_concat]
  simpa [Inventory.follow, Entry.ofTable, Function.comp_def, Table.descriptor] using after

private theorem takeIn (replicated : s.Replicated) (orderly : s.Orderly) (tables : List Table) :
    (s.takeIn tables).1.Replicated := by
  have live := s.compactor.tables.receive_live tables
  have distinct : (s.compactor.tables.receive tables).1.liveIds.Nodup :=
    TableSet.nodup_receive orderly.tables
  rw [TableSet.liveIds, live] at distinct
  rw [Replicated, takeIn_compactor]
  intro on
  have on : s.compactor.enabled = true := on
  have after := (replicated on).put_all distinct
  rw [live, flushReports]
  cases new : TableSet.added (s.compactor.tables.receive tables).2 with
  | nil => simpa [on] using replicated on
  | cons u rest =>
    rw [new] at after
    simp only [on, List.isEmpty_cons, Bool.not_false, Bool.and_self, if_true,
      Inventory.replay_concat]
    simpa [Inventory.follow, Entry.ofTable, Function.comp_def] using after

variable [Quantity R]

private theorem pending (replicated : s.Replicated) (other : Site R)
    (enabled : t.compactor.enabled = s.compactor.enabled)
    (live : t.compactor.tables.live = s.compactor.tables.live)
    (events : t.compactor.events = s.compactor.events ++ other.dueReports) : t.Replicated := by
  intro on
  have unchanged : replay (s.compactor.events ++ other.dueReports) = replay s.compactor.events := by
    rw [dueReports]
    split
    · exact Inventory.replay_concat _ _
    · rw [List.append_nil]
  rw [live, events, unchanged]
  exact replicated (enabled ▸ on)

private theorem switchOn (orderly : s.Orderly) : s.switchOn.Replicated := by
  intro _
  have sorted := s.compactor.tables.perm_byId
  have distinct : (([] ++ s.compactor.tables.byId).map (fun t : Table => t.id)).Nodup :=
    ((sorted.map _).nodup_iff).2 orderly.tables
  have shown := (Inventory.shows_empty.put_all distinct).perm sorted
  rw [switchOn_compactor, Inventory.replay_concat]
  simpa [Inventory.follow, strategyState] using shown

/-- Every act leaves events that show the live tables, or leaves compaction disabled. -/
theorem act {direct : Prop} (replicated : s.Replicated) (orderly : s.Orderly)
    (act : Act direct s t) : t.Replicated := by
  cases act with
  | switchOn => exact switchOn orderly
  | switchOff on =>
    intro still
    rw [disable_compactor on] at still
    exact absurd still Bool.false_ne_true
  | takeIn tables => exact replicated.takeIn orderly tables
  | passOver =>
    have after := s.passOver_compactor
    exact replicated.pending s (by rw [after]) (by rw [after]) (by rw [after])
  | @handOver chosen =>
    have after := s.handOver_compactor chosen
    exact replicated.pending (s.take chosen) (by rw [after]; rfl) (by rw [after]; rfl) (by rw [after])
  | @settle job waits outputs =>
    have after := s.settleJob_compactor job outputs
    exact replicated.merge _ _ _ _ (by rw [after]) (by rw [after]) (by rw [after])
  | fail => exact replicated.of_same_events rfl rfl rfl
  | drop => exact replicated.of_same_events rfl rfl rfl
  | replace allowed start inputs stop outputs =>
    have after := s.replace_compactor start inputs stop outputs
    exact replicated.merge start inputs stop outputs (by rw [after]) (by rw [after]) (by rw [after])
  | giveBack => exact replicated.of_same_events rfl rfl rfl
  | setThresholds => exact replicated.of_same_events rfl rfl rfl
  | setIntake => exact replicated.of_same_events rfl rfl rfl
  | elsewhere => exact replicated.of_same_events rfl rfl rfl
  | count => exact replicated.of_same_events rfl rfl rfl

end Replicated

variable [Quantity R]

/-- Whatever is called in whatever order, replaying the events gives the live tables with their
sizes at any time at which compaction is enabled. -/
theorem run_replicated (s : Site R) (o : Opening R) (calls : List (Call R))
    (on : ((s.opened o).run calls).compactor.enabled = true) :
    let c := ((s.opened o).run calls).compactor
    c.tables.liveIds.Nodup ∧ ∀ id size, replay c.events id = some size ↔
      ∃ t ∈ c.tables.live, t.id = id ∧ t.size = size := by
  have orderly := s.orderly_opened o
  have acts := acts_run_any orderly calls
  have replicated : ((s.opened o).run calls).Replicated :=
    invariant (fun orderly replicated act => replicated.act orderly act) acts orderly
      fun on => absurd on Bool.false_ne_true
  exact ⟨(orderly.acts acts).tables, replicated on⟩

/-- A change while compaction is disabled, a merge within a merge, and a direct report. -/
theorem reopened_replicated :
    let calls : List (Call Float) :=
      [.flush (Table.samples [1, 2]), .enable, .flush (Table.samples [2, 3]), .disable,
        .complete ⟨0⟩ (Table.samples [1, 9]) ⟨5⟩ (Table.samples [7, 7, 2]), .setIntake .merge,
        .enable, .flush (Table.samples [4]), .giveBack (Table.samples [5]) .cancelled]
    let c := ((sample.opened (.sample .keep)).run calls).compactor
    c.tables.liveIds = [100] ∧ replay c.events 100 = some 40 ∧
      ∀ id size, replay c.events id = some size ↔ ∃ t ∈ c.tables.live, t.id = id ∧ t.size = size :=
  ⟨by decide +kernel, by decide +kernel,
    (run_replicated sample (.sample .keep) _ (by decide +kernel)).2⟩

end Site

end TieredCompaction
