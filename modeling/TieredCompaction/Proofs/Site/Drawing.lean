import TieredCompaction.Proofs.IdSource
import TieredCompaction.Proofs.Site.Notices
import TieredCompaction.Proofs.Site.Settling
import TieredCompaction.Proofs.Site.Surroundings
/-!
Which IDs a call draws and under which IDs it takes tables in. A queue that merges at once draws an
ID for each merge and hands the table over. Tables under new IDs of their own are all taken in.
-/
namespace TieredCompaction

/-- Whether a table stays out because its ID is live. -/
def Notice.clashes {R : Type} : Notice R → Bool
  | liveFlush _ | liveOutput _ => true
  | _ => false

/-- The ID of each output is drawn for it. -/
def Merge.dealings (m : Merge) : List Dealing :=
  m.outputs.flatMap fun t => [.drew t.id, .handed t.id]

theorem Merge.handedOver_dealings (m : Merge) :
    Dealing.handedOver m.dealings = m.outputs.map (·.id) := by
  rw [dealings]
  induction m.outputs with
  | nil => rfl
  | cons t rest ih => exact congrArg (t.id :: ·) ih

/-- Whether a call is that of others who share what the compactor works with. -/
def Call.isElsewhere {R : Type} : Call R → Bool
  | elsewhere .. => true
  | _ => false

namespace TableSet

variable {s : TableSet} {ts : List Table} {t : Table}

/-- Tables under new IDs of their own do not clash with live ones. -/
theorem not_alreadyLive_receive (distinct : (ts.map (·.id)).Nodup)
    (unused : ∀ t ∈ ts, t.id ∉ s.liveIds) : (t, Reception.alreadyLive) ∉ (s.receive ts).2 := by
  induction ts generalizing s with
  | nil => exact List.not_mem_nil
  | cons u rest ih =>
    obtain ⟨new, unused⟩ := List.forall_mem_cons.1 unused
    obtain ⟨apart, distinct⟩ := List.nodup_cons.1 distinct
    obtain ⟨_, eq⟩ | ⟨_, live, _⟩ | ⟨_, _, eq⟩ := receive_cons s u rest
    · rw [eq]
      simpa using ih distinct unused
    · exact absurd live new
    · rw [eq]
      refine List.not_mem_cons_of_ne_of_not_mem (by simp) (ih distinct fun v member => ?_)
      rw [liveIds, List.map_append, List.mem_append, not_or]
      refine ⟨unused v member, fun same => apart ?_⟩
      rw [← List.mem_singleton.1 same]
      exact List.mem_map_of_mem member

theorem liveIds_receive_subset (s : TableSet) (ts : List Table) :
    (s.receive ts).1.liveIds ⊆ s.liveIds ++ ts.map (·.id) := by
  rw [liveIds, receive_live, List.map_append]
  exact List.append_subset.2 ⟨List.subset_append_left _ _, fun id new =>
    List.mem_append_right _ (((added_sublist s ts).map _).subset new)⟩

theorem liveIds_removeAll_subset (s : TableSet) (ts : List Table) :
    (s.removeAll ts).1.liveIds ⊆ s.liveIds := by
  rw [removeAll_fst]
  exact (List.filter_sublist.map _).subset

end TableSet

namespace Site

open Relation (ReflTransGen)

variable {R : Type} {s t u : Site R} {ids more : List Nat}

def liveIds (s : Site R) : List Nat :=
  s.compactor.tables.liveIds

/-- On the way from one site to the other, tables come in under some IDs, and none stays out because
its ID is live. -/
structure Admits (s t : Site R) (ids : List Nat) : Prop where
  live : t.liveIds ⊆ s.liveIds ++ ids
  told : ∀ n ∈ t.notices, n.clashes = true → n ∈ s.notices

namespace Admits

theorem trans (first : Admits s t ids) (second : Admits t u more) : Admits s u (ids ++ more) where
  live := by
    intro id live
    rw [← List.append_assoc]
    exact (List.mem_append.1 (second.live live)).elim
      (fun before => List.mem_append_left _ (first.live before)) (List.mem_append_right _)
  told n told clashes := first.told n (second.told n told clashes) clashes

/-- An act that takes nothing in. -/
theorem of_same (live : t.compactor.tables.live = s.compactor.tables.live) {ns : List (Notice R)}
    (notices : t.notices = s.notices ++ ns) (harmless : ∀ n ∈ ns, n.clashes = false) :
    Admits s t [] where
  live := by
    rw [List.append_nil, liveIds, TableSet.liveIds, live]
    exact List.Subset.refl _
  told n told clashes := by
    rw [notices] at told
    refine (List.mem_append.1 told).resolve_right fun new => ?_
    rw [harmless n new] at clashes
    contradiction

theorem refl (s : Site R) : Admits s s [] :=
  of_same rfl (List.append_nil _).symm (List.forall_mem_nil _)

theorem takeIn {tables : List Table} (distinct : (tables.map (·.id)).Nodup)
    (unused : s.liveIds.Disjoint (tables.map (·.id))) :
    Admits s (s.takeIn tables).1 (tables.map (·.id)) where
  live := by
    rw [liveIds, takeIn_compactor]
    exact TableSet.liveIds_receive_subset _ _
  told n told clashes := by
    rw [takeIn_notices] at told
    refine (List.mem_append.1 told).resolve_right fun new => ?_
    simp only [flushNotices, List.mem_append, List.mem_filterMap] at new
    rcases new with ⟨⟨u, outcome⟩, received, same⟩ | new
    · cases outcome with
      | added => contradiction
      | empty =>
        rw [← Option.some.inj same] at clashes
        contradiction
      | alreadyLive => exact TableSet.not_alreadyLive_receive distinct (fun t given live =>
          unused live (List.mem_map_of_mem given)) received
    · split at new
      · contradiction
      · rw [List.mem_singleton.1 new] at clashes
        contradiction

theorem replace {outputs : List Table} (distinct : (outputs.map (·.id)).Nodup)
    (unused : s.liveIds.Disjoint (outputs.map (·.id))) (start : Moment) (inputs : List Table)
    (stop : Moment) : Admits s (s.replace start inputs stop outputs) (outputs.map (·.id)) := by
  have kept : ((keptOutputs outputs).map (·.id)).Sublist (outputs.map (·.id)) :=
    List.filter_sublist.map _
  have stays : (s.compactor.tables.removeAll inputs).1.liveIds ⊆ s.liveIds :=
    TableSet.liveIds_removeAll_subset _ _
  constructor
  · intro id live
    rw [liveIds, replace_compactor] at live
    exact (List.mem_append.1 (TableSet.liveIds_receive_subset _ _ live)).elim
      (fun old => List.mem_append_left _ (stays old))
      (fun new => List.mem_append_right _ (kept.subset new))
  · intro n told clashes
    rw [replace_notices] at told
    refine (List.mem_append.1 told).resolve_right fun new => ?_
    simp only [mergeNotices, List.mem_append, List.mem_map, List.mem_filterMap,
      List.mem_singleton] at new
    rcases new with (⟨u, _, rfl⟩ | ⟨⟨u, outcome⟩, received, same⟩) | rfl
    · contradiction
    · cases outcome with
      | alreadyLive =>
        refine TableSet.not_alreadyLive_receive (distinct.sublist kept) (fun t given live => ?_)
          received
        exact unused (stays live) (kept.subset (List.mem_map_of_mem given))
      | _ => contradiction
    · contradiction

theorem settleJob (job : Job R) (outputs : List Table) (distinct : (outputs.map (·.id)).Nodup)
    (unused : s.liveIds.Disjoint (outputs.map (·.id))) :
    Admits s (s.settleJob job outputs) (outputs.map (·.id)) :=
  have withdrawn : Admits s (s.withdraw job.id) [] :=
    of_same rfl (List.append_nil _).symm (List.forall_mem_nil _)
  withdrawn.trans (replace (s := s.withdraw job.id) distinct unused _ _ _)

variable [Quantity R]

theorem handOver (s : Site R) (chosen : Selection R) : Admits s (s.handOver chosen) [] :=
  of_same (s.live_handOver chosen) (s.handOver_notices chosen) (by simp [Notice.clashes])

/-- The table that a queue makes of a job comes in under its new ID. -/
theorem settleMerged {job : Job R} (unused : (s.mergeOutput job).1.id ∉ s.liveIds) :
    Admits s (s.settleMerged job) [(s.mergeOutput job).1.id] :=
  have made : Admits s (s.mergeOutput job).2 [] :=
    of_same rfl (List.append_nil _).symm (List.forall_mem_nil _)
  made.trans (settleJob job [(s.mergeOutput job).1] (List.nodup_singleton _)
    (List.disjoint_singleton.2 unused))

end Admits

variable [Quantity R]

theorem chain_pass (orderly : s.Orderly) : Chain (s.tableCount + 1) s s.pass.1 :=
  chain_passUpTo orderly _

/-- A chain of passes whose merges give tables under new IDs. -/
theorem Chain.admits {limit : Nat} (chain : Chain limit s t)
    (distinct : (Dealing.handedOver ((s.mergesUpTo limit).flatMap Merge.dealings)).Nodup)
    (unused :
      s.liveIds.Disjoint (Dealing.handedOver ((s.mergesUpTo limit).flatMap Merge.dealings))) :
    Admits s t (Dealing.handedOver ((s.mergesUpTo limit).flatMap Merge.dealings)) := by
  induction chain with
  | cut => exact .refl _
  | off off =>
    rw [mergesUpTo_off off]
    exact .refl _
  | idle on none =>
    rw [mergesUpTo_none on none]
    exact .of_same (by rw [passOver_compactor]) (passOver_notices _) (by simp [Notice.clashes])
  | keep orderly on some keep =>
    rw [mergesUpTo_kept orderly on some (by simp [keep])]
    exact .handOver _ _
  | @drop s limit chosen orderly on some drop =>
    rw [mergesUpTo_kept orderly on some (by simp [drop])]
    exact (Admits.handOver s chosen).trans
      (.of_same rfl (dropJob_notices _ _) (by simp [Notice.clashes]))
  | @merge s t limit chosen orderly on some merge rest ih =>
    rw [mergesUpTo_merge orderly on some merge, List.flatMap_cons, Dealing.handedOver_append,
      Merge.handedOver_dealings] at distinct unused ⊢
    obtain ⟨first, others, apart⟩ := List.nodup_append'.1 distinct
    obtain ⟨now, later⟩ := List.disjoint_append_right.1 unused
    have handed := Admits.handOver s chosen
    have new : ((s.handOver chosen).mergeOutput (s.jobOf chosen)).1.id ∉
        (s.handOver chosen).liveIds := fun live =>
      now (List.append_nil s.liveIds ▸ handed.live live) (List.mem_singleton_self _)
    have merged := handed.trans (Admits.settleMerged new)
    refine merged.trans (ih others fun id live given => ?_)
    rcases List.mem_append.1 (merged.live live) with old | same
    · exact later old given
    · exact apart same given

/-- Each merge of a chain draws the ID of its output. -/
theorem Chain.deals {limit : Nat} (chain : Chain limit s t) :
    s.ids.Deals ((s.mergesUpTo limit).flatMap Merge.dealings) t.ids := by
  induction chain with
  | cut => exact .nil
  | off off =>
    rw [mergesUpTo_off off]
    exact .nil
  | idle on none =>
    rw [mergesUpTo_none on none, (inside_passOver _).ids]
    exact .nil
  | keep orderly on some keep =>
    rw [mergesUpTo_kept orderly on some (by simp [keep]), (inside_handOver _ _).ids]
    exact .nil
  | @drop s limit chosen orderly on some drop =>
    rw [mergesUpTo_kept orderly on some (by simp [drop]),
      ((inside_handOver s chosen).trans (inside_dropJob _ _)).ids]
    exact .nil
  | @merge s t limit chosen orderly on some merge rest ih =>
    rw [mergesUpTo_merge orderly on some merge]
    have handed : s.ids = (s.handOver chosen).ids := (inside_handOver s chosen).ids.symm
    have settled : ((s.handOver chosen).settleMerged (s.jobOf chosen)).ids = s.ids.draw.2 := by
      rw [settleMerged, settleJob, replace_ids, handed]
      rfl
    rw [settled] at ih
    rw [handed] at ih ⊢
    exact .draw (.hand _ ih)

/-- The tables that a call hands over, those that the queue makes left out. -/
def given (s : Site R) : Call R → List Table
  | .flush tables => tables
  | .completeJob id outputs => if (s.job? id).isSome then outputs else []
  | .complete _ _ _ outputs => outputs
  | _ => []

def givenIds (s : Site R) (call : Call R) : List Nat :=
  (s.given call).map (·.id)

/-- What a call does with IDs. -/
def dealings (s : Site R) (call : Call R) : List Dealing :=
  (s.givenIds call).map .handed ++
    match s.begins call with
    | some t => t.passMerges.flatMap Merge.dealings
    | none => []

omit [Quantity R] in
theorem onJob_cases {P : Site R → Prop} {id : Nat} {f : Site R → Job R → Site R} (none : P s)
    (some : ∀ job, P (f s job)) : P (s.onJob id f) := by
  rw [onJob]
  split
  · exact some _
  · exact none

/-- Where the chain of passes starts that a call brings about. If there is none, that is where the
call ends. -/
def beforePasses (s : Site R) (call : Call R) : Site R :=
  (s.begins call).getD (s.perform call)

theorem ids_beforePasses (s : Site R) {call : Call R} (own : call.isElsewhere = false) :
    (s.beforePasses call).ids = s.ids := by
  rw [beforePasses]
  cases call with
  | enable =>
    cases enabled : s.compactor.enabled with
    | false => simp [begins, enabled, (inside_switchOn s).ids]
    | true => simp [begins, enabled, perform, enable_of_on enabled]
  | disable => exact (inside_disable s).ids
  | flush tables =>
    by_cases none : (s.admits tables).isEmpty
    · have none' : (TableSet.added (s.compactor.tables.receive tables).2).isEmpty = true := none
      simp [begins, none, perform, flush_eq, none', (inside_takeIn s tables).ids]
    · simp [begins, none, (inside_takeIn s tables).ids]
  | completeJob id outputs =>
    cases found : s.job? id with
    | none => simp [begins, found, perform, Site.onJob]
    | some job =>
      simp only [begins, found, Option.map_some, Option.getD_some]
      exact replace_ids _ _ _ _ _
  | failJob id cause =>
    exact onJob_cases (P := (·.ids = s.ids)) (f := fun s job => s.failJob job cause) rfl
      fun job => rfl
  | dropJob id => exact onJob_cases (P := (·.ids = s.ids)) (f := dropJob) rfl fun job => rfl
  | complete start inputs stop outputs => exact replace_ids _ _ _ _ _
  | elsewhere => contradiction
  | _ => rfl

theorem admits_beforePasses {call : Call R} (distinct : (s.givenIds call).Nodup)
    (unused : s.liveIds.Disjoint (s.givenIds call)) :
    Admits s (s.beforePasses call) (s.givenIds call) := by
  rw [beforePasses]
  cases call with
  | enable =>
    cases enabled : s.compactor.enabled with
    | false =>
      simp only [begins, enabled]
      exact .of_same rfl s.switchOn_notices (by simp [Notice.clashes])
    | true =>
      simp only [begins, enabled, perform, enable_of_on enabled]
      exact .refl s
  | disable =>
    cases enabled : s.compactor.enabled with
    | false =>
      simp only [begins, perform, disable_of_off enabled]
      exact .refl s
    | true =>
      exact .of_same (congrArg (·.tables.live) (disable_compactor enabled))
        (disable_notices enabled) (by simp [Notice.clashes])
  | flush tables =>
    have taken : Admits s (s.takeIn tables).1 (tables.map (·.id)) := .takeIn distinct unused
    by_cases none : (s.admits tables).isEmpty
    · have none' : (TableSet.added (s.compactor.tables.receive tables).2).isEmpty = true := none
      simpa [begins, none, perform, flush_eq, none', givenIds, given] using taken
    · simpa [begins, none, givenIds, given] using taken
  | evaluate => exact .refl s
  | setThresholds t => exact .of_same rfl rfl (by simp [Notice.clashes])
  | completeJob id outputs =>
    cases found : s.job? id with
    | none =>
      simp only [begins, found, perform, Site.onJob, givenIds, given]
      exact .refl s
    | some job =>
      simp only [givenIds, given, found, Option.isSome_some, if_true] at distinct unused ⊢
      simp only [begins, found, Option.map_some, Option.getD_some]
      exact .settleJob job outputs distinct unused
  | failJob id cause =>
    exact onJob_cases (P := (Admits s · [])) (f := fun s job => s.failJob job cause) (.refl s)
      fun job => .of_same rfl (failJob_notices s job cause) (by simp [Notice.clashes])
  | dropJob id =>
    exact onJob_cases (P := (Admits s · [])) (f := dropJob) (.refl s)
      fun job => .of_same rfl (dropJob_notices s job) (by simp [Notice.clashes])
  | complete start inputs stop outputs => exact .replace distinct unused _ _ _
  | giveBack inputs cause =>
    exact .of_same rfl (giveBack_notices s inputs cause) (by simp [Notice.clashes])
  | _ => exact .of_same rfl (List.append_nil _).symm (List.forall_mem_nil _)

theorem orderly_beforePasses (orderly : s.Orderly) (call : Call R) :
    (s.beforePasses call).Orderly := by
  rw [beforePasses]
  cases begun : s.begins call with
  | some t => exact orderly.acts (of_begins begun).1
  | none =>
    have acts : ReflTransGen (Act True) s (s.perform call) :=
      acts_perform orderly call fun _ => trivial
    exact orderly.acts acts

/-- After that, a call does no more than its chain of passes. -/
theorem passes_cases (s : Site R) (call : Call R) :
    (s.perform call = (s.beforePasses call).pass.1 ∧ s.dealings call =
      (s.givenIds call).map .handed ++
        (s.beforePasses call).passMerges.flatMap Merge.dealings) ∨
    (s.perform call = s.beforePasses call ∧
      s.dealings call = (s.givenIds call).map .handed) := by
  rw [dealings, beforePasses]
  cases begun : s.begins call with
  | some t => exact .inl ⟨(of_begins begun).2, rfl⟩
  | none => exact .inr ⟨rfl, List.append_nil _⟩

/-- A call draws IDs for what the queue merges at once. -/
theorem deals_perform (orderly : s.Orderly) {call : Call R} (own : call.isElsewhere = false) :
    s.ids.Deals (s.dealings call) (s.perform call).ids := by
  have same := s.ids_beforePasses own
  have given : s.ids.Deals ((s.givenIds call).map .handed) s.ids := .handed _ _
  rcases s.passes_cases call with ⟨performed, dealt⟩ | ⟨performed, dealt⟩
  · have passes := (chain_pass (orderly_beforePasses orderly call)).deals
    rw [performed, dealt]
    exact given.append (same ▸ passes)
  · rw [performed, dealt, same]
    exact given

/-- Tables under new IDs of their own are taken in by a call. -/
theorem admits_perform (orderly : s.Orderly) {call : Call R}
    (distinct : (Dealing.handedOver (s.dealings call)).Nodup)
    (unused : s.liveIds.Disjoint (Dealing.handedOver (s.dealings call))) :
    Admits s (s.perform call) (Dealing.handedOver (s.dealings call)) := by
  rcases s.passes_cases call with ⟨performed, dealt⟩ | ⟨performed, dealt⟩
  · rw [dealt, Dealing.handedOver_append, Dealing.handedOver_handed] at distinct unused ⊢
    obtain ⟨first, others, apart⟩ := List.nodup_append'.1 distinct
    obtain ⟨now, later⟩ := List.disjoint_append_right.1 unused
    have before := admits_beforePasses first now
    have passes := chain_pass (orderly_beforePasses orderly call)
    rw [performed]
    refine before.trans (passes.admits others fun id live given => ?_)
    rcases List.mem_append.1 (before.live live) with old | new
    · exact later old given
    · exact apart new given
  · rw [dealt, Dealing.handedOver_handed] at distinct unused ⊢
    rw [performed]
    exact admits_beforePasses distinct unused

end Site

end TieredCompaction
