import TieredCompaction.Proofs.Site.Calls
/-!
Every live table is accounted for once. Whatever is called, reports about unknown, repeated or empty
tables included, what is in flight is live, and a live table is either in flight or in one bucket.
-/
namespace TieredCompaction

namespace TableSet

/-- What is in flight is live, each ID is in flight once, and no live table is empty. -/
structure Sound (s : TableSet) : Prop where
  inFlight : s.hidden ⊆ s.liveIds
  once : s.hidden.Nodup
  full : ∀ t ∈ s.live, t.size ≠ 0

namespace Sound

variable {s : TableSet}

theorem empty : TableSet.empty.Sound where
  inFlight := List.nil_subset _
  once := List.nodup_nil
  full _ live := absurd live List.not_mem_nil

theorem receive (sound : s.Sound) (ts : List Table) : (s.receive ts).1.Sound where
  inFlight := by
    rw [receive_hidden, liveIds, receive_live, List.map_append]
    exact List.Subset.trans sound.inFlight (List.subset_append_left _ _)
  once := by
    rw [receive_hidden]
    exact sound.once
  full t live := by
    rw [receive_live] at live
    rcases List.mem_append.1 live with old | new
    · exact sound.full t old
    · exact (of_mem_added_receive new).2.1

/-- Tables leave both sets together, so that what stays in flight stays live. -/
theorem removeAll (sound : s.Sound) (ts : List Table) : (s.removeAll ts).1.Sound where
  inFlight id hidden := by
    rw [removeAll_fst] at hidden
    obtain ⟨old, stays⟩ := List.mem_filter.1 hidden
    obtain ⟨t, live, rfl⟩ := List.mem_map.1 (sound.inFlight old)
    rw [Bool.not_eq_true', ← Bool.not_eq_true, any_id_iff] at stays
    exact List.mem_map_of_mem (mem_live_removeAll.2 ⟨live, stays⟩)
  once := by
    rw [removeAll_fst]
    exact sound.once.sublist List.filter_sublist
  full t live := sound.full t (mem_live_removeAll.1 live).1

theorem unhide (sound : s.Sound) (ts : List Table) : (s.unhide ts).Sound where
  inFlight := List.Subset.trans (List.filter_sublist.subset) sound.inFlight
  once := sound.once.sublist List.filter_sublist
  full := sound.full

theorem hide (sound : s.Sound) {ids : List Nat} (distinct : ids.Nodup)
    (free : ∀ id ∈ ids, id ∉ s.hidden) (live : ids ⊆ s.liveIds) :
    ({ s with hidden := s.hidden ++ ids } : TableSet).Sound where
  inFlight := List.append_subset.2 ⟨sound.inFlight, live⟩
  once := List.nodup_append.2 ⟨sound.once, distinct, fun id old _ new same =>
    free id (same ▸ new) old⟩
  full := sound.full

/-- The live tables are those in flight and the candidates. -/
theorem perm_live (sound : s.Sound) (distinct : s.liveIds.Nodup) :
    (s.hidden ++ s.candidates.map (·.id)).Perm s.liveIds := by
  have inFlight : s.hidden.Perm ((s.live.filter fun t => s.isHidden t.id).map (·.id)) := by
    refine (List.perm_ext_iff_of_nodup sound.once
      (distinct.sublist (List.filter_sublist.map _))).2 fun id => ⟨fun hidden => ?_, ?_⟩
    · obtain ⟨t, live, rfl⟩ := List.mem_map.1 (sound.inFlight hidden)
      exact List.mem_map_of_mem (List.mem_filter.2 ⟨live, by simpa [isHidden] using hidden⟩)
    · rintro hidden
      obtain ⟨t, member, rfl⟩ := List.mem_map.1 hidden
      simpa [isHidden] using (List.mem_filter.1 member).2
  have others : s.candidates.Perm (s.live.filter fun t => !s.isHidden t.id) := by
    refine s.perm_candidates.trans (.of_eq (List.filter_congr fun t live => ?_))
    have positive : 0 < t.size := Nat.pos_of_ne_zero (sound.full t live)
    simp [positive]
  have parts := List.filter_append_perm (fun t : Table => s.isHidden t.id) s.live
  have ids := parts.map (·.id)
  rw [List.map_append] at ids
  exact (inFlight.append (others.map _)).trans ids

/-- A table that is added is a candidate, as no ID in flight is new. -/
theorem candidate_of_added (sound : s.Sound) {ts : List Table} {t : Table}
    (new : t ∈ added (s.receive ts).2) : t ∈ (s.receive ts).1.candidates := by
  obtain ⟨_, full, unused⟩ := of_mem_added_receive new
  rw [mem_candidates, receive_live, receive_hidden]
  exact ⟨List.mem_append_right _ new, Nat.pos_of_ne_zero full,
    fun hidden => unused (sound.inFlight hidden)⟩

end Sound

end TableSet

namespace Site

variable {R : Type} [Quantity R] {s t : Site R}

theorem sound_act {direct : Prop} (orderly : s.Orderly) (sound : s.compactor.tables.Sound)
    (act : Act direct s t) : t.compactor.tables.Sound := by
  cases act with
  | switchOff on => rw [disable_compactor on]; exact sound
  | takeIn tables => rw [takeIn_compactor]; exact sound.receive tables
  | passOver => rw [passOver_compactor]; exact sound
  | @handOver chosen on some =>
    have free := selection_free some
    rw [handOver_compactor]
    refine sound.hide (selection_distinct orderly.tables some) ?_ ?_
    · intro id taken
      obtain ⟨t, member, rfl⟩ := List.mem_map.1 taken
      exact (free t member).2
    · intro id taken
      obtain ⟨t, member, rfl⟩ := List.mem_map.1 taken
      exact List.mem_map_of_mem (free t member).1
  | @settle job waits outputs =>
    rw [settleJob_compactor]
    exact (sound.removeAll job.tables).receive (keptOutputs outputs)
  | @fail job waits cause => exact sound.unhide job.tables
  | @drop job waits => exact sound.unhide job.tables
  | replace allowed start inputs stop outputs =>
    rw [replace_compactor]
    exact (sound.removeAll inputs).receive (keptOutputs outputs)
  | giveBack allowed inputs cause => exact sound.unhide inputs
  | switchOn | setThresholds | setIntake | elsewhere | count => exact sound

theorem sound_run (s : Site R) (o : Opening R) (calls : List (Call R)) :
    ((s.opened o).run calls).compactor.tables.Sound :=
  invariant (fun orderly sound act => sound_act orderly sound act)
    (acts_run_any (s.orderly_opened o) calls) (s.orderly_opened o) TableSet.Sound.empty

def bucketIds (b : Bucket Table) : List Nat :=
  b.items.map (·.id)

theorem perm_bucketIds (s : Site R) :
    (s.buckets.flatMap bucketIds).Perm (s.candidates.map (·.id)) := by
  have items := (s.compactor.options.perm_items_tableBuckets s.candidates).map (·.id)
  have full : s.candidates.filter (·.size ≠ 0) = s.candidates :=
    List.filter_eq_self.2 fun t member =>
      decide_eq_true (Nat.ne_of_gt (TableSet.mem_candidates.1 member).2.1)
  rw [full, List.map_flatMap] at items
  exact items

/-- Every live table has its place, and only one. -/
structure Accounted (s : Site R) : Prop where
  /-- What is in flight is live. -/
  inFlight : ∀ id ∈ s.compactor.tables.hidden, id ∈ s.compactor.tables.liveIds
  /-- Every live table is the one under its ID, -/
  own : ∀ t ∈ s.compactor.tables.live, s.compactor.tables.live.find? (·.id == t.id) = some t
  /-- and none is empty. -/
  full : ∀ t ∈ s.compactor.tables.live, 0 < t.size
  /-- A live ID is in flight and in no bucket, or it is in one bucket, once, and not in flight. -/
  placed : ∀ id ∈ s.compactor.tables.liveIds,
    (id ∈ s.compactor.tables.hidden ∧ ∀ b ∈ s.buckets, id ∉ bucketIds b) ∨
    (id ∉ s.compactor.tables.hidden ∧ ∃ before b after, s.buckets = before ++ b :: after ∧
      (bucketIds b).count id = 1 ∧ ∀ c ∈ before ++ after, id ∉ bucketIds c)
  /-- Buckets hold live tables only. -/
  bucketed : ∀ b ∈ s.buckets, ∀ t ∈ b.items, t ∈ s.compactor.tables.live
  counted : s.tableCount = s.inFlightCount + sumBy Bucket.length s.buckets
  /-- A table that a flush adds is a candidate at once, -/
  flushed : ∀ tables, ∀ t ∈ TableSet.added (s.compactor.tables.receive tables).2,
    t ∈ (s.takeIn tables).1.candidates
  /-- and so is a table that a merge adds. -/
  merged : ∀ start inputs stop outputs, ∀ t ∈ TableSet.added
      ((s.compactor.tables.removeAll inputs).1.receive (keptOutputs outputs)).2,
    t ∈ (s.replace start inputs stop outputs).candidates

/-- The IDs in flight and those in buckets are the live ones, each once. -/
theorem perm_inFlight_buckets (orderly : s.Orderly) (sound : s.compactor.tables.Sound) :
    (s.compactor.tables.hidden ++ s.buckets.flatMap bucketIds).Perm s.compactor.tables.liveIds :=
  (s.perm_bucketIds.append_left _).trans (sound.perm_live orderly.tables)

theorem placed_of_sound (orderly : s.Orderly) (sound : s.compactor.tables.Sound) {id : Nat}
    (live : id ∈ s.compactor.tables.liveIds) :
    (id ∈ s.compactor.tables.hidden ∧ ∀ b ∈ s.buckets, id ∉ bucketIds b) ∨
    (id ∉ s.compactor.tables.hidden ∧ ∃ before b after, s.buckets = before ++ b :: after ∧
      (bucketIds b).count id = 1 ∧ ∀ c ∈ before ++ after, id ∉ bucketIds c) := by
  have whole := perm_inFlight_buckets orderly sound
  have distinct := (whole.nodup_iff).2 orderly.tables
  obtain ⟨_, each, apart⟩ := List.nodup_append.1 distinct
  rcases List.mem_append.1 (whole.mem_iff.2 live) with hidden | bucketed
  · refine .inl ⟨hidden, fun b held inside => ?_⟩
    exact apart id hidden id (List.mem_flatMap.2 ⟨b, held, inside⟩) rfl
  · obtain ⟨b, held, inside⟩ := List.mem_flatMap.1 bucketed
    obtain ⟨before, after, split⟩ := List.append_of_mem held
    rw [split] at each
    exact .inr ⟨fun hidden => apart id hidden id bucketed rfl, before, b, after, split,
      only_of_nodup_flatMap each inside⟩

theorem accounted_of_sound (orderly : s.Orderly) (sound : s.compactor.tables.Sound) :
    s.Accounted where
  inFlight _ hidden := sound.inFlight hidden
  own _ live := TableSet.find?_live orderly.tables live
  full t live := Nat.pos_of_ne_zero (sound.full t live)
  placed _ live := placed_of_sound orderly sound live
  bucketed _ held _ inside :=
    (candidates_subset ((Options.items_subperm held).subset inside)).1
  counted := by
    have sizes := (perm_inFlight_buckets orderly sound).length_eq
    have lengths : (fun b => (bucketIds b).length) = Bucket.length := by
      funext b
      simp [bucketIds, Bucket.items, Bucket.length]
    rw [List.length_append, length_flatMap, lengths, TableSet.liveIds, List.length_map] at sizes
    exact sizes.symm
  flushed tables t new := by
    rw [candidates, takeIn_compactor]
    exact sound.candidate_of_added new
  merged start inputs stop outputs t new := by
    rw [candidates, replace_compactor]
    exact (sound.removeAll inputs).candidate_of_added new

/-- Whatever is called in whatever order, every live table is in flight or in one bucket, and what
comes in is a candidate. -/
theorem run_accounted (s : Site R) (o : Opening R) (calls : List (Call R)) :
    ((s.opened o).run calls).Accounted :=
  have orderly := s.orderly_opened o
  accounted_of_sound (orderly.acts (acts_run_any orderly calls)) (sound_run s o calls)

/-- While a job holds four tables, one of them is reported merged, with an unknown input and with
repeated, live and empty outputs, and another one is given back. -/
theorem direct_reports_accounted :
    let empty : Table := { id := 8, size := 0, place := 0 }
    let calls : List (Call Float) :=
      [.enable, .flush (Table.samples [1, 2, 3, 4]), .flush (empty :: Table.samples [5, 5, 6]),
        .complete ⟨0⟩ (Table.samples [1, 9]) ⟨5⟩ (empty :: Table.samples [7, 7, 5]),
        .giveBack (Table.samples [2, 9]) .cancelled]
    let t := (sample.opened (.sample .keep)).run calls
    t.compactor.tables.hidden = [3, 4] ∧ t.buckets.map bucketIds = [[2, 5, 6, 7]] ∧
      t.tableCount = 6 ∧ t.Accounted :=
  ⟨by decide +kernel, by decide +kernel, by decide +kernel,
    run_accounted sample (.sample .keep) _⟩

end Site

end TieredCompaction
