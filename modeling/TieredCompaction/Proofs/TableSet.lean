import TieredCompaction.TableSet
import Mathlib.Data.List.Nodup
import Mathlib.Data.List.Perm.Subperm
/-!
What table sets keep. Live tables stay distinct by ID whatever is handed in or taken out, and the
candidates are exactly the live tables that are not in flight.
-/
namespace TieredCompaction

namespace Table

theorem sizeLe_iff {a b : Table} :
    a.sizeLe b = true ↔ a.size < b.size ∨ a.size = b.size ∧ a.id ≤ b.id := by
  simp [sizeLe]

theorem sizeLe_trans (a b c : Table) (first : a.sizeLe b = true) (second : b.sizeLe c = true) :
    a.sizeLe c = true := by
  rw [sizeLe_iff] at first second ⊢
  omega

theorem sizeLe_total (a b : Table) : a.sizeLe b = true ∨ b.sizeLe a = true := by
  rw [sizeLe_iff, sizeLe_iff]
  omega

end Table

namespace TableSet

def liveIds (s : TableSet) : List Nat :=
  s.live.map (·.id)

variable {s : TableSet} {t : Table} {ts : List Table}

theorem any_id_iff {id : Nat} : ts.any (·.id == id) = true ↔ id ∈ ts.map (·.id) := by
  simp

/-- Taking the IDs of tables out of IDs that are none of theirs. -/
theorem filter_of_apart {ids : List Nat} (apart : ∀ t ∈ ts, t.id ∉ ids) :
    (ids.filter fun id => !ts.any (·.id == id)) = ids := by
  refine List.filter_eq_self.2 fun id member => ?_
  rw [Bool.not_eq_true', ← Bool.not_eq_true, any_id_iff]
  intro same
  obtain ⟨t, taken, rfl⟩ := List.mem_map.1 same
  exact apart t taken member

theorem isLive_iff {id : Nat} : s.isLive id = true ↔ id ∈ s.liveIds :=
  any_id_iff

/-- Distinct IDs make a live table the only one under its ID. -/
theorem eq_of_id_eq (distinct : s.liveIds.Nodup) {u : Table} (ht : t ∈ s.live) (hu : u ∈ s.live)
    (same : t.id = u.id) : t = u :=
  List.inj_on_of_nodup_map distinct ht hu same

theorem find?_live (distinct : s.liveIds.Nodup) (ht : t ∈ s.live) :
    s.live.find? (·.id == t.id) = some t := by
  cases found : s.live.find? (·.id == t.id) with
  | none =>
    have absent := List.find?_eq_none.1 found t ht
    simp at absent
  | some u =>
    have same : u.id = t.id := by simpa using List.find?_some found
    rw [eq_of_id_eq distinct (List.mem_of_find?_eq_some found) ht same]

/-- A table that is handed in first is empty, or live already, or new. -/
theorem receive_cons (s : TableSet) (t : Table) (rest : List Table) :
    (t.size = 0 ∧ s.receive (t :: rest) =
      ((s.receive rest).1, (t, .empty) :: (s.receive rest).2)) ∨
    (t.size ≠ 0 ∧ t.id ∈ s.liveIds ∧ s.receive (t :: rest) =
      ((s.receive rest).1, (t, .alreadyLive) :: (s.receive rest).2)) ∨
    (t.size ≠ 0 ∧ t.id ∉ s.liveIds ∧ s.receive (t :: rest) =
      (({ s with live := s.live ++ [t] } : TableSet).receive rest |>.1,
        (t, .added) :: (({ s with live := s.live ++ [t] } : TableSet).receive rest).2)) := by
  by_cases empty : t.size = 0
  · exact .inl ⟨empty, by simp [receive, empty]⟩
  · by_cases live : t.id ∈ s.liveIds
    · exact .inr (.inl ⟨empty, live, by simp [receive, empty, add?, isLive_iff.2 live]⟩)
    · have absent : s.isLive t.id = false := Bool.eq_false_iff.2 fun h => live (isLive_iff.1 h)
      exact .inr (.inr ⟨empty, live, by simp [receive, empty, add?, absent]⟩)

@[simp] theorem added_nil : added [] = [] := rfl

@[simp] theorem added_cons_added (outcomes : List (Table × Reception)) :
    added ((t, .added) :: outcomes) = t :: added outcomes := rfl

@[simp] theorem added_cons_empty (outcomes : List (Table × Reception)) :
    added ((t, .empty) :: outcomes) = added outcomes := rfl

@[simp] theorem added_cons_alreadyLive (outcomes : List (Table × Reception)) :
    added ((t, .alreadyLive) :: outcomes) = added outcomes := rfl

@[simp] theorem receive_hidden (s : TableSet) (ts : List Table) :
    (s.receive ts).1.hidden = s.hidden := by
  induction ts generalizing s with
  | nil => rfl
  | cons t rest ih =>
    obtain ⟨_, eq⟩ | ⟨_, _, eq⟩ | ⟨_, _, eq⟩ := receive_cons s t rest <;> rw [eq] <;> exact ih _

theorem receive_live (s : TableSet) (ts : List Table) :
    (s.receive ts).1.live = s.live ++ added (s.receive ts).2 := by
  induction ts generalizing s with
  | nil => simp [receive]
  | cons t rest ih =>
    obtain ⟨_, eq⟩ | ⟨_, _, eq⟩ | ⟨_, _, eq⟩ := receive_cons s t rest
    · rw [eq, added_cons_empty]
      exact ih s
    · rw [eq, added_cons_alreadyLive]
      exact ih s
    · rw [eq, added_cons_added]
      simpa using ih { s with live := s.live ++ [t] }

theorem nodup_receive (distinct : s.liveIds.Nodup) : (s.receive ts).1.liveIds.Nodup := by
  induction ts generalizing s with
  | nil => exact distinct
  | cons t rest ih =>
    obtain ⟨_, eq⟩ | ⟨_, _, eq⟩ | ⟨_, absent, eq⟩ := receive_cons s t rest
    · rw [eq]
      exact ih distinct
    · rw [eq]
      exact ih distinct
    · rw [eq]
      apply ih
      simp only [liveIds, List.map_append, List.map_cons, List.map_nil]
      exact List.nodup_append.2 ⟨distinct, List.nodup_singleton _, fun a ha b hb same =>
        absent (by rw [← List.mem_singleton.1 hb, ← same]; exact ha)⟩

/-- Only tables that are not empty and have a new ID are added. -/
theorem of_mem_added_receive (new : t ∈ added (s.receive ts).2) :
    t ∈ ts ∧ t.size ≠ 0 ∧ t.id ∉ s.liveIds := by
  induction ts generalizing s with
  | nil => exact absurd new List.not_mem_nil
  | cons u rest ih =>
    obtain ⟨_, eq⟩ | ⟨_, _, eq⟩ | ⟨full, absent, eq⟩ := receive_cons s u rest
    · rw [eq, added_cons_empty] at new
      obtain ⟨member, facts⟩ := ih new
      exact ⟨List.mem_cons_of_mem _ member, facts⟩
    · rw [eq, added_cons_alreadyLive] at new
      obtain ⟨member, facts⟩ := ih new
      exact ⟨List.mem_cons_of_mem _ member, facts⟩
    · rw [eq, added_cons_added] at new
      rcases List.mem_cons.1 new with rfl | later
      · exact ⟨List.mem_cons_self, full, absent⟩
      · obtain ⟨member, positive, unused⟩ := ih later
        refine ⟨List.mem_cons_of_mem _ member, positive, fun live => unused ?_⟩
        rw [liveIds, List.map_append]
        exact List.mem_append_left _ live

theorem added_sublist (s : TableSet) (ts : List Table) : (added (s.receive ts).2).Sublist ts := by
  induction ts generalizing s with
  | nil => exact .slnil
  | cons t rest ih =>
    obtain ⟨_, eq⟩ | ⟨_, _, eq⟩ | ⟨_, _, eq⟩ := receive_cons s t rest
    · rw [eq, added_cons_empty]
      exact (ih s).cons t
    · rw [eq, added_cons_alreadyLive]
      exact (ih s).cons t
    · rw [eq, added_cons_added]
      exact (ih _).cons_cons t

/-- Tables that are not empty and have new IDs of their own are all added. -/
theorem added_receive_eq_self (full : ∀ t ∈ ts, t.size ≠ 0) (distinct : (ts.map (·.id)).Nodup)
    (unused : ∀ t ∈ ts, t.id ∉ s.liveIds) : added (s.receive ts).2 = ts := by
  induction ts generalizing s with
  | nil => rfl
  | cons t rest ih =>
    obtain ⟨positive, full⟩ := List.forall_mem_cons.1 full
    obtain ⟨new, unused⟩ := List.forall_mem_cons.1 unused
    obtain ⟨apart, distinct⟩ := List.nodup_cons.1 distinct
    obtain ⟨empty, _⟩ | ⟨_, live, _⟩ | ⟨_, _, eq⟩ := receive_cons s t rest
    · exact absurd empty positive
    · exact absurd live new
    · rw [eq, added_cons_added, ih full distinct]
      intro u member
      rw [liveIds, List.map_append, List.mem_append, not_or]
      refine ⟨unused u member, fun same => apart ?_⟩
      rw [← List.mem_singleton.1 same]
      exact List.mem_map_of_mem member

/-- All tables are added if and only if they have new IDs of their own, given that none is empty. -/
theorem added_receive_eq_iff (distinct : s.liveIds.Nodup) (full : ∀ t ∈ ts, t.size ≠ 0) :
    added (s.receive ts).2 = ts ↔ (ts.map (·.id)).Nodup ∧ ∀ t ∈ ts, t.id ∉ s.liveIds := by
  constructor
  · intro all
    refine ⟨?_, fun t member => (of_mem_added_receive (all.symm ▸ member)).2.2⟩
    have live : (s.receive ts).1.liveIds.Nodup := nodup_receive distinct
    rw [liveIds, receive_live, all, List.map_append] at live
    exact (List.nodup_append.1 live).2.1
  · rintro ⟨each, unused⟩
    exact added_receive_eq_self full each unused

/-- It does not matter how tables that are handed in are divided into lists. -/
theorem receive_append (s : TableSet) (ts us : List Table) :
    (s.receive (ts ++ us)).1 = ((s.receive ts).1.receive us).1 := by
  induction ts generalizing s with
  | nil => rfl
  | cons t rest ih =>
    rw [List.cons_append]
    by_cases empty : t.size = 0
    · simp only [receive, if_pos empty]
      exact ih s
    · cases new : s.add? t with
      | none =>
        simp only [receive, if_neg empty, new]
        exact ih s
      | some next =>
        simp only [receive, if_neg empty, new]
        exact ih next

/-- A table that is handed in leaves its ID live, unless it is empty. -/
theorem mem_liveIds_receive (member : t ∈ ts) (full : t.size ≠ 0) :
    t.id ∈ (s.receive ts).1.liveIds := by
  have stays (u : TableSet) (us : List Table) {id : Nat} (live : id ∈ u.liveIds) :
      id ∈ (u.receive us).1.liveIds := by
    rw [liveIds, receive_live, List.map_append]
    exact List.mem_append_left _ live
  induction ts generalizing s with
  | nil => exact absurd member List.not_mem_nil
  | cons first rest ih =>
    rcases List.mem_cons.1 member with rfl | later
    · obtain ⟨empty, _⟩ | ⟨_, live, eq⟩ | ⟨_, _, eq⟩ := receive_cons s t rest
      · exact absurd empty full
      · rw [eq]
        exact stays s rest live
      · rw [eq]
        refine stays _ rest ?_
        rw [liveIds, List.map_append]
        exact List.mem_append_right _ (List.mem_singleton_self _)
    · obtain ⟨_, eq⟩ | ⟨_, _, eq⟩ | ⟨_, _, eq⟩ := receive_cons s first rest <;> rw [eq] <;>
        exact ih later

/-- Of tables handed in to an empty set those that are not empty become live, if no two of them
share an ID. -/
theorem mem_live_receive_empty
    (own : ∀ t ∈ ts, ∀ u ∈ ts, t.size ≠ 0 → u.size ≠ 0 → t.id = u.id → t = u) :
    t ∈ (empty.receive ts).1.live ↔ t ∈ ts ∧ t.size ≠ 0 := by
  have given {u : Table} (live : u ∈ (empty.receive ts).1.live) : u ∈ ts ∧ u.size ≠ 0 := by
    rw [receive_live] at live
    have new := of_mem_added_receive live
    exact ⟨new.1, new.2.1⟩
  refine ⟨given, fun ⟨member, full⟩ => ?_⟩
  obtain ⟨u, live, same⟩ := List.mem_map.1 (mem_liveIds_receive (s := empty) member full)
  obtain ⟨other, positive⟩ := given live
  rwa [own t member u other full positive same.symm]

/-- Tables leave both sets by their IDs. -/
theorem removeAll_fst (s : TableSet) (ts : List Table) :
    (s.removeAll ts).1 =
      { live := s.live.filter fun t => !ts.any (·.id == t.id)
        hidden := s.hidden.filter fun id => !ts.any (·.id == id) } := by
  induction ts generalizing s with
  | nil => simp [removeAll]
  | cons u rest ih =>
    rw [removeAll, ih]
    simp only [remove, List.filter_filter, List.any_cons, Bool.not_or]
    congr 1 <;> refine List.filter_congr fun x _ => ?_ <;> rw [Bool.and_comm] <;> congr 1
    · rw [bne, BEq.comm]
    · rw [bne, BEq.comm]

theorem nodup_removeAll (distinct : s.liveIds.Nodup) : (s.removeAll ts).1.liveIds.Nodup := by
  rw [removeAll_fst]
  exact distinct.sublist (List.Sublist.map _ List.filter_sublist)

theorem mem_live_removeAll :
    t ∈ (s.removeAll ts).1.live ↔ t ∈ s.live ∧ t.id ∉ ts.map (·.id) := by
  rw [removeAll_fst, List.mem_filter, Bool.not_eq_true', ← Bool.not_eq_true, any_id_iff]

theorem mem_liveIds_removeAll {id : Nat} :
    id ∈ (s.removeAll ts).1.liveIds ↔ id ∈ s.liveIds ∧ id ∉ ts.map (·.id) := by
  rw [liveIds, liveIds, List.mem_map, List.mem_map]
  constructor
  · rintro ⟨t, stays, rfl⟩
    obtain ⟨live, apart⟩ := mem_live_removeAll.1 stays
    exact ⟨⟨t, live, rfl⟩, apart⟩
  · rintro ⟨⟨t, live, rfl⟩, apart⟩
    exact ⟨t, mem_live_removeAll.2 ⟨live, apart⟩, rfl⟩

/-- The live tables that make way have one of the IDs. -/
theorem mem_removeAll_snd :
    t ∈ (s.removeAll ts).2 ↔ t ∈ s.live ∧ t.id ∈ ts.map (·.id) := by
  induction ts generalizing s with
  | nil => simp [removeAll]
  | cons u rest ih =>
    rw [removeAll]
    simp only [List.mem_append, List.mem_filter, ih, remove, List.map_cons, List.mem_cons,
      beq_iff_eq, bne_iff_ne]
    by_cases same : t.id = u.id <;> simp [same]

/-- The tables that make way, and the ones that stay, are the live tables. -/
theorem perm_removeAll_snd (s : TableSet) (ts : List Table) :
    s.live.Perm ((s.removeAll ts).2 ++ (s.removeAll ts).1.live) := by
  induction ts generalizing s with
  | nil => exact .refl _
  | cons t rest ih =>
    have parts := List.filter_append_perm (fun u : Table => u.id == t.id) s.live
    have later : (s.live.filter fun u => !(u.id == t.id)).Perm _ := ih (s.remove t)
    rw [removeAll, List.append_assoc]
    exact parts.symm.trans (later.append_left _)

/-- At most one table makes way for each table that is passed, and it has its ID. -/
theorem ids_removeAll_sublist (distinct : s.liveIds.Nodup) :
    ((s.removeAll ts).2.map (·.id)).Sublist (ts.map (·.id)) := by
  induction ts generalizing s with
  | nil => exact .slnil
  | cons t rest ih =>
    have others := ih (s := s.remove t) (distinct.sublist (List.filter_sublist.map _))
    have first : (s.live.filter (·.id == t.id)).map (·.id) = List.replicate (s.liveIds.count t.id) t.id := by
      rw [← List.filter_beq, liveIds, List.filter_map]
      rfl
    have once : (List.replicate (s.liveIds.count t.id) t.id).Sublist [t.id] :=
      (List.replicate_sublist_replicate t.id).2 (List.nodup_iff_count_le_one.1 distinct t.id)
    rw [removeAll, List.map_append, first]
    exact once.append others

/-- Live tables as described by the tables passed make way, if no two of these have one ID. Otherwise
what makes way is not what was passed. -/
theorem descriptors_removeAll_iff (distinct : s.liveIds.Nodup) :
    (s.removeAll ts).2.map (·.descriptor) = ts.map (·.descriptor) ↔
      (ts.map (·.id)).Nodup ∧ ∀ t ∈ ts, ∃ u ∈ s.live, u.descriptor = t.descriptor := by
  constructor
  · intro same
    have ids : (s.removeAll ts).2.map (·.id) = ts.map (·.id) := by
      simpa [Table.descriptor, Function.comp_def] using congrArg (List.map (·.generation)) same
    refine ⟨?_, fun t member => ?_⟩
    · have parts := (s.perm_removeAll_snd ts).map (·.id)
      rw [List.map_append, ids] at parts
      exact (List.nodup_append.1 (parts.nodup_iff.1 distinct)).1
    · have told : t.descriptor ∈ (s.removeAll ts).2.map (·.descriptor) :=
        same ▸ List.mem_map_of_mem member
      obtain ⟨u, leaves, alike⟩ := List.mem_map.1 told
      exact ⟨u, (mem_removeAll_snd.1 leaves).1, alike⟩
  · rintro ⟨each, known⟩
    induction ts generalizing s with
    | nil => rfl
    | cons t rest ih =>
      obtain ⟨apart, each⟩ := List.nodup_cons.1 each
      obtain ⟨⟨u, live, alike⟩, known⟩ := List.forall_mem_cons.1 known
      have sameId : u.id = t.id := congrArg Descriptor.generation alike
      have others := ih (s := s.remove t) (distinct.sublist (List.filter_sublist.map _)) each
        fun v member => by
          obtain ⟨w, held, told⟩ := known v member
          refine ⟨w, List.mem_filter.2 ⟨held, bne_iff_ne.2 fun clash => apart ?_⟩, told⟩
          have other : w.id = v.id := congrArg Descriptor.generation told
          exact List.mem_map.2 ⟨v, member, other.symm.trans clash⟩
      have one : s.live.filter (·.id == t.id) = [u] := by
        refine List.perm_singleton.1 ((List.perm_ext_iff_of_nodup
          ((List.Nodup.of_map _ distinct).filter _) (List.nodup_singleton u)).2 fun v => ?_)
        rw [List.mem_filter, List.mem_singleton, beq_iff_eq, ← sameId]
        refine ⟨fun ⟨held, same⟩ => eq_of_id_eq distinct held live same, ?_⟩
        rintro rfl
        exact ⟨live, rfl⟩
      rw [removeAll, List.map_append, others, one, List.map_cons, List.map_cons, alike]
      rfl

theorem length_receive_le (s : TableSet) (ts : List Table) :
    (s.receive ts).1.live.length ≤ s.live.length + ts.length := by
  induction ts generalizing s with
  | nil => exact Nat.le_refl _
  | cons t rest ih =>
    obtain ⟨_, eq⟩ | ⟨_, _, eq⟩ | ⟨_, _, eq⟩ := receive_cons s t rest
    · have others := ih s
      simp only [eq, List.length_cons]
      omega
    · have others := ih s
      simp only [eq, List.length_cons]
      omega
    · have others := ih { s with live := s.live ++ [t] }
      rw [List.length_append, List.length_singleton] at others
      simp only [eq, List.length_cons]
      omega

/-- Distinct live tables all leave. -/
theorem length_removeAll_add_le (distinct : (ts.map (·.id)).Nodup) (live : ∀ t ∈ ts, t ∈ s.live) :
    (s.removeAll ts).1.live.length + ts.length ≤ s.live.length := by
  have leaving : ts.Subperm (s.live.filter fun t => ts.any (·.id == t.id)) := by
    refine List.subperm_of_subset (List.Nodup.of_map _ distinct) fun t member => ?_
    rw [List.mem_filter, any_id_iff]
    exact ⟨live t member, List.mem_map_of_mem member⟩
  have parts := List.length_eq_length_filter_add (l := s.live) fun t => ts.any (·.id == t.id)
  rw [removeAll_fst, parts, Nat.add_comm]
  exact Nat.add_le_add_right leaving.length_le _

/-- Live tables that are taken out, and the ones that stay, are the live tables. -/
theorem perm_removeAll (unique : s.liveIds.Nodup) (distinct : (ts.map (·.id)).Nodup)
    (live : ∀ t ∈ ts, t ∈ s.live) : ((s.removeAll ts).1.live ++ ts).Perm s.live := by
  have leaving : ts.Perm (s.live.filter fun t => ts.any (·.id == t.id)) := by
    refine (List.perm_ext_iff_of_nodup (List.Nodup.of_map _ distinct)
      ((List.Nodup.of_map _ unique).filter _)).2 fun t => ?_
    rw [List.mem_filter, any_id_iff]
    refine ⟨fun member => ⟨live t member, List.mem_map_of_mem member⟩, fun ⟨held, same⟩ => ?_⟩
    obtain ⟨u, member, sameId⟩ := List.mem_map.1 same
    rw [eq_of_id_eq unique held (live u member) sameId.symm]
    exact member
  rw [removeAll_fst]
  exact (leaving.append_left _).trans
    (List.perm_append_comm.trans (List.filter_append_perm (fun t => ts.any (·.id == t.id)) s.live))

theorem perm_candidates (s : TableSet) :
    s.candidates.Perm (s.live.filter fun t => 0 < t.size && !s.isHidden t.id) :=
  perm_sortBy _ _

theorem mem_candidates : t ∈ s.candidates ↔ t ∈ s.live ∧ 0 < t.size ∧ t.id ∉ s.hidden := by
  rw [s.perm_candidates.mem_iff]
  simp [isHidden]

theorem nodup_candidates (distinct : s.liveIds.Nodup) : (s.candidates.map (·.id)).Nodup :=
  ((s.perm_candidates.map _).nodup_iff).2
    (distinct.sublist (List.Sublist.map _ List.filter_sublist))

/-- Putting more tables in flight takes them out of the candidates and keeps the others in place. -/
theorem candidates_hide (s : TableSet) (ids : List Nat) :
    ({ s with hidden := s.hidden ++ ids } : TableSet).candidates =
      s.candidates.filter fun t => !ids.contains t.id := by
  rw [candidates, candidates, ← sortBy_filter Table.sizeLe_trans Table.sizeLe_total,
    List.filter_filter]
  refine congrArg _ (List.filter_congr fun t _ => ?_)
  simp only [isHidden, List.contains_eq_mem, List.mem_append]
  by_cases before : t.id ∈ s.hidden <;> by_cases now : t.id ∈ ids <;> simp [before, now]

theorem mem_hidden_unhide {id : Nat} :
    id ∈ (s.unhide ts).hidden ↔ id ∈ s.hidden ∧ id ∉ ts.map (·.id) := by
  rw [unhide, List.mem_filter, Bool.not_eq_true', ← Bool.not_eq_true, any_id_iff]

theorem nodup_hidden_unhide (once : s.hidden.Nodup) : (s.unhide ts).hidden.Nodup :=
  once.sublist List.filter_sublist

/-- Tables in flight that are given back, and the ones that stay, are the ones in flight. -/
theorem perm_hidden_unhide (once : s.hidden.Nodup) (distinct : (ts.map (·.id)).Nodup)
    (inFlight : ∀ t ∈ ts, t.id ∈ s.hidden) :
    s.hidden.Perm (ts.map (·.id) ++ (s.unhide ts).hidden) := by
  have whole : (ts.map (·.id) ++ (s.unhide ts).hidden).Nodup :=
    List.nodup_append.2 ⟨distinct, nodup_hidden_unhide once, fun id given _ stays same =>
      (mem_hidden_unhide.1 stays).2 (same ▸ given)⟩
  refine (List.perm_ext_iff_of_nodup once whole).2 fun id => ?_
  rw [List.mem_append, mem_hidden_unhide]
  constructor
  · intro hidden
    by_cases given : id ∈ ts.map (·.id)
    · exact .inl given
    · exact .inr ⟨hidden, given⟩
  · rintro (given | ⟨hidden, _⟩)
    · obtain ⟨t, member, rfl⟩ := List.mem_map.1 given
      exact inFlight t member
    · exact hidden

/-- Live tables in flight that are given back become candidates beside the others. -/
theorem perm_candidates_unhide (unique : s.liveIds.Nodup) (distinct : (ts.map (·.id)).Nodup)
    (live : ∀ t ∈ ts, t ∈ s.live) (full : ∀ t ∈ ts, 0 < t.size)
    (inFlight : ∀ t ∈ ts, t.id ∈ s.hidden) :
    (s.unhide ts).candidates.Perm (s.candidates ++ ts) := by
  have whole : (s.candidates ++ ts).Nodup :=
    List.nodup_append.2 ⟨List.Nodup.of_map _ (nodup_candidates unique), List.Nodup.of_map _ distinct,
      fun t candidate u given same =>
        (mem_candidates.1 candidate).2.2 (same ▸ inFlight u given)⟩
  have after : (s.unhide ts).candidates.Nodup :=
    List.Nodup.of_map _ (nodup_candidates (s := s.unhide ts) unique)
  refine (List.perm_ext_iff_of_nodup after whole).2 fun t => ?_
  rw [List.mem_append, mem_candidates, mem_candidates, mem_hidden_unhide]
  change t ∈ s.live ∧ _ ↔ _
  constructor
  · rintro ⟨held, positive, free⟩
    by_cases hidden : t.id ∈ s.hidden
    · refine .inr ?_
      by_contra other
      refine free ⟨hidden, fun same => other ?_⟩
      obtain ⟨u, given, sameId⟩ := List.mem_map.1 same
      rw [eq_of_id_eq unique held (live u given) sameId.symm]
      exact given
    · exact .inl ⟨held, positive, hidden⟩
  · rintro (⟨held, positive, free⟩ | given)
    · exact ⟨held, positive, fun still => free still.1⟩
    · exact ⟨live t given, full t given, fun still => still.2 (List.mem_map_of_mem given)⟩

theorem sorted_candidates (s : TableSet) : s.candidates.Pairwise fun t u => t.size ≤ u.size := by
  refine (pairwise_sortBy Table.sizeLe_trans Table.sizeLe_total _).imp fun ordered => ?_
  rw [Table.sizeLe_iff] at ordered
  omega

/-- The candidates do not depend on the order in which tables are kept. -/
theorem candidates_eq_of_perm {u : TableSet} (distinct : s.liveIds.Nodup)
    (live : s.live.Perm u.live) (hidden : ∀ id, id ∈ s.hidden ↔ id ∈ u.hidden) :
    s.candidates = u.candidates := by
  have free : (fun t : Table => (0 < t.size && !s.isHidden t.id : Bool)) =
      fun t => 0 < t.size && !u.isHidden t.id := by
    funext t
    simp only [isHidden, List.contains_eq_mem, hidden t.id]
  rw [candidates, candidates, ← free]
  refine sortBy_eq_of_perm Table.sizeLe_trans Table.sizeLe_total ?_ (live.filter _)
  intro t ht v hv before behind
  rw [Table.sizeLe_iff] at before behind
  exact eq_of_id_eq distinct (List.mem_filter.1 ht).1 (List.mem_filter.1 hv).1 (by omega)

/-- Which tables are candidates decides in which order they come. -/
theorem candidates_eq_sortBy (unique : s.liveIds.Nodup) (distinct : (ts.map (·.id)).Nodup)
    (same : ∀ t, t ∈ s.candidates ↔ t ∈ ts) : s.candidates = sortBy Table.sizeLe ts := by
  have candidates : s.candidates.Nodup := List.Nodup.of_map _ (nodup_candidates unique)
  have members : s.candidates.Perm ts :=
    (List.perm_ext_iff_of_nodup candidates (List.Nodup.of_map _ distinct)).2 same
  refine (sortBy_eq_of_perm Table.sizeLe_trans Table.sizeLe_total ?_
    (members.symm.trans s.perm_candidates)).symm
  intro t ht v hv before behind
  rw [Table.sizeLe_iff] at before behind
  exact List.inj_on_of_nodup_map distinct ht hv (by omega)

theorem byId_eq_of_perm {u : TableSet} (distinct : s.liveIds.Nodup) (live : s.live.Perm u.live) :
    s.byId = u.byId := by
  refine sortBy_eq_of_perm (fun a b c => ?_) (fun a b => ?_)
    (fun t ht v hv before behind => ?_) live
  · simp only [decide_eq_true_eq]
    exact Nat.le_trans
  · simp only [decide_eq_true_eq]
    exact Nat.le_total _ _
  · simp only [decide_eq_true_eq] at before behind
    exact eq_of_id_eq distinct ht hv (Nat.le_antisymm before behind)

theorem perm_byId (s : TableSet) : s.byId.Perm s.live :=
  perm_sortBy _ _

private theorem eraseDups_eq_self {ids : List Nat} (distinct : ids.Nodup) : ids.eraseDups = ids := by
  induction ids with
  | nil => rfl
  | cons id rest ih =>
    obtain ⟨absent, distinct⟩ := List.nodup_cons.1 distinct
    have kept : rest.filter (fun other => !other == id) = rest :=
      List.filter_eq_self.2 fun other member => by
        simp only [Bool.not_eq_true', beq_eq_false_iff_ne]
        exact fun same => absent (same ▸ member)
    rw [List.eraseDups_cons, kept, ih distinct]

/-- Distinct tables of which none is in flight can be put in flight. -/
theorem hide?_eq_some (distinct : (ts.map (·.id)).Nodup) (free : ∀ t ∈ ts, t.id ∉ s.hidden) :
    s.hide? ts = some { s with hidden := s.hidden ++ ts.map (·.id) } := by
  have none : ts.any (s.isHidden ·.id) = false := by
    simpa [isHidden] using free
  simp [hide?, none, eraseDups_eq_self distinct]

end TableSet

end TieredCompaction
