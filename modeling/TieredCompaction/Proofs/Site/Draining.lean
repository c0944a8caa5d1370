import TieredCompaction.Proofs.Site.History
import TieredCompaction.Proofs.Site.Pending
/-!
Chains of passes come to an end, and so does draining the queue, whatever has happened before. A
pass that merges leaves fewer tables. A job takes at least two tables that were free, so that a
merged job, which frees one, cannot keep the queue filled for ever.
-/
namespace TieredCompaction

namespace TableSet

variable {s : TableSet} {ts : List Table}

theorem length_candidates (s : TableSet) :
    s.candidates.length = (s.live.filter fun t => 0 < t.size && !s.isHidden t.id).length :=
  s.perm_candidates.length_eq

theorem length_candidates_le (s : TableSet) : s.candidates.length ≤ s.live.length := by
  rw [length_candidates]
  exact List.length_filter_le _ _

/-- Taking tables out frees none of those that stay. -/
theorem length_candidates_removeAll_le (s : TableSet) (ts : List Table) :
    (s.removeAll ts).1.candidates.length ≤ s.candidates.length := by
  rw [length_candidates, length_candidates, removeAll_fst, List.filter_filter]
  refine (List.monotone_filter_right s.live fun t free => ?_).length_le
  simp only [isHidden, List.contains_eq_mem, Bool.and_eq_true, decide_eq_true_eq,
    Bool.not_eq_true', decide_eq_false_iff_not, List.mem_filter, not_and] at free ⊢
  exact ⟨free.1.1, fun hidden => free.1.2 hidden free.2⟩

theorem length_candidates_receive_le (s : TableSet) (ts : List Table) :
    (s.receive ts).1.candidates.length ≤ s.candidates.length + ts.length := by
  rw [length_candidates, length_candidates, receive_live, List.filter_append, List.length_append]
  have old : (s.live.filter fun t => 0 < t.size && !(s.receive ts).1.isHidden t.id) =
      s.live.filter fun t => 0 < t.size && !s.isHidden t.id := by
    simp only [isHidden, receive_hidden]
  rw [old]
  exact Nat.add_le_add_left
    (Nat.le_trans (List.length_filter_le _ _) (added_sublist s ts).length_le) _

/-- Tables put in flight are no candidates any more. -/
theorem length_candidates_hide (fewer : ts.Subperm s.candidates) :
    ({ s with hidden := s.hidden ++ ts.map (·.id) } : TableSet).candidates.length + ts.length ≤
      s.candidates.length := by
  have taken : ts.Subperm
      (s.candidates.filter fun t => (ts.map (·.id)).contains t.id) := by
    obtain ⟨part, same, sub⟩ := fewer
    refine ⟨part, same, ?_⟩
    have kept : part.filter (fun t => (ts.map (·.id)).contains t.id) = part :=
      List.filter_eq_self.2 fun t member => by
        simpa using ⟨t, same.mem_iff.1 member, rfl⟩
    exact kept ▸ sub.filter _
  have parts := List.length_eq_length_filter_add (l := s.candidates)
    fun t => (ts.map (·.id)).contains t.id
  rw [candidates_hide, parts, Nat.add_comm]
  exact Nat.add_le_add_right taken.length_le _

end TableSet

namespace Site

variable {R : Type} [Quantity R]

/-- A chain of passes as long as it takes, with the number of its merges: what a compactor does when
it evaluates its tables, and again within each hand-over at which the queue merges the job. -/
inductive Passes : Site R → Nat → Site R → Prop where
  | off {s} (off : s.compactor.enabled = false) : Passes s 0 s
  | idle {s t} (on : s.compactor.enabled = true) (none : s.evaluate = (t, none)) : Passes s 0 t
  | keep {s t job} (on : s.compactor.enabled = true) (some : s.evaluate = (t, some job))
      (keep : t.compactor.intake = .keep) : Passes s 0 (t.park job)
  | drop {s t job} (on : s.compactor.enabled = true) (some : s.evaluate = (t, some job))
      (drop : t.compactor.intake = .drop) : Passes s 0 (t.abandon job)
  | merge {s t u job n} (on : s.compactor.enabled = true) (some : s.evaluate = (t, some job))
      (merge : t.compactor.intake = .merge) (rest : Passes (t.mergeAtOnce job) n u) :
      Passes s (n + 1) u

/-- Merging the oldest waiting job until none waits, with the number of these merges. -/
inductive Drains : Site R → Nat → Site R → Prop where
  | done {s} (none : s.compactor.waiting = []) : Drains s 0 s
  | next {s t job rest n} (first : s.compactor.waiting = job :: rest)
      (others : Drains (s.mergeJob job) n t) : Drains s (n + 1) t

variable {s t : Site R}

theorem tableCount_passOver (s : Site R) : s.passOver.tableCount = s.tableCount := by
  rw [tableCount, passOver_compactor, tableCount]

omit [Quantity R] in
theorem tableCount_dropJob (s : Site R) (job : Job R) : (s.dropJob job).tableCount = s.tableCount :=
  rfl

theorem thresholds_handOver (s : Site R) (chosen : Selection R) :
    (s.handOver chosen).compactor.thresholds = s.compactor.thresholds := by
  rw [handOver_compactor]
  rfl

theorem thresholds_settleMerged (s : Site R) (job : Job R) :
    (s.settleMerged job).compactor.thresholds = s.compactor.thresholds := by
  rw [settleMerged_compactor]

/-- A chain of passes that is allowed more passes than there are tables is not cut off. -/
theorem Chain.passes {limit : Nat} (chain : Chain limit s t) (enough : s.tableCount < limit) :
    Passes s (s.mergesUpTo limit).length t := by
  induction chain with
  | cut => exact absurd enough (Nat.not_lt_zero _)
  | off off =>
    rw [mergesUpTo_off off]
    exact .off off
  | idle on none =>
    rw [mergesUpTo_none on none]
    exact .idle on (evaluate_of_none none)
  | keep orderly on some keep =>
    have submits := submits orderly some
    rw [mergesUpTo_kept orderly on some (by simp [keep]), ← submits.keep]
    exact .keep on submits.evaluate (submits.intake.trans keep)
  | drop orderly on some drop =>
    have submits := submits orderly some
    rw [mergesUpTo_kept orderly on some (by simp [drop]), ← submits.drop]
    exact .drop on submits.evaluate (submits.intake.trans drop)
  | merge orderly on some merge rest ih =>
    have submits := submits orderly some
    have two := two_le_length_selection some
    have fewer := tableCount_merged_add_le orderly some
    have passes := ih (by omega)
    rw [← submits.merge] at passes
    rw [mergesUpTo_merge orderly on some merge, List.length_cons, ← submits.merge]
    exact .merge on submits.evaluate (submits.intake.trans merge) passes

/-- Each merge leaves at most one table of those it takes. -/
theorem Chain.tableCount_le {limit : Nat} (chain : Chain limit s t) :
    (s.mergesUpTo limit).length * (s.compactor.thresholds.least - 1) + t.tableCount ≤
      s.tableCount := by
  induction chain with
  | cut => simp [mergesUpTo]
  | off off => simp [mergesUpTo_off off]
  | idle on none => simp [mergesUpTo_none on none, tableCount_passOver]
  | keep orderly on some keep =>
    rw [mergesUpTo_kept orderly on some (by simp [keep])]
    simp [tableCount_handOver]
  | drop orderly on some drop =>
    rw [mergesUpTo_kept orderly on some (by simp [drop])]
    simp [tableCount_dropJob, tableCount_handOver]
  | @merge s t limit chosen orderly on some merge rest ih =>
    have enough := least_le_length_selection some
    have two := s.compactor.thresholds.two_le_least
    have fewer := tableCount_merged_add_le orderly some
    rw [thresholds_settleMerged, thresholds_handOver] at ih
    rw [mergesUpTo_merge orderly on some merge, List.length_cons, Nat.succ_mul]
    omega

theorem passes_pass (orderly : s.Orderly) : Passes s s.passMerges.length s.pass.1 :=
  (chain_passUpTo orderly _).passes (Nat.lt_succ_self _)

theorem tableCount_pass_le (orderly : s.Orderly) : s.pass.1.tableCount ≤ s.tableCount :=
  Nat.le_trans (Nat.le_add_left _ _) (chain_passUpTo orderly _).tableCount_le

/-- What is left to be merged at most: the free tables, and for each waiting job the two that it
takes at least. -/
def burden (s : Site R) : Nat :=
  s.candidates.length + 2 * s.compactor.waiting.length

theorem burden_passOver (s : Site R) : s.passOver.burden = s.burden := by
  simp only [burden, candidates, passOver_compactor]

theorem burden_handOver_le {chosen : Selection R} (some : s.selection = some chosen) :
    (s.handOver chosen).burden ≤ s.burden := by
  have fewer : (s.take chosen).candidates.length + chosen.tables.length ≤ s.candidates.length :=
    TableSet.length_candidates_hide (Options.select_subperm some)
  have two := two_le_length_selection some
  have waiting : (s.handOver chosen).compactor.waiting.length = s.compactor.waiting.length + 1 := by
    rw [handOver_compactor, List.length_append, List.length_singleton]
  rw [burden, burden, waiting, candidates_handOver]
  omega

theorem burden_dropJob_handOver_le {chosen : Selection R} (some : s.selection = some chosen) :
    ((s.handOver chosen).dropJob (s.jobOf chosen)).burden ≤ s.burden := by
  have gone : (s.jobOf chosen :: []).filter (·.id != (s.jobOf chosen).id) = [] := by simp
  have fewer : ((s.handOver chosen).dropJob (s.jobOf chosen)).compactor.waiting.length ≤
      s.compactor.waiting.length := by
    rw [dropJob_compactor, handOver_compactor, List.filter_append, gone, List.append_nil]
    exact List.length_filter_le _ _
  rw [burden, burden, candidates, tables_dropJob_handOver some, ← candidates]
  omega

/-- A merged job takes more from the queue than its output adds to the free tables. -/
theorem burden_settleMerged_lt {job : Job R} (waits : job ∈ s.compactor.waiting) :
    (s.settleMerged job).burden < s.burden := by
  have one : (keptOutputs [(s.mergeOutput job).1]).length ≤ 1 := List.length_filter_le _ _
  have removed := s.compactor.tables.length_candidates_removeAll_le job.tables
  have received := (s.compactor.tables.removeAll job.tables).1.length_candidates_receive_le
    (keptOutputs [(s.mergeOutput job).1])
  have fewer : (s.compactor.waiting.filter (·.id != job.id)).length < s.compactor.waiting.length :=
    List.length_filter_lt_length_iff_exists.2 ⟨job, waits, by simp⟩
  rw [burden, candidates, settleMerged_compactor, burden, candidates]
  dsimp only
  omega

theorem Chain.burden_le {limit : Nat} (chain : Chain limit s t) : t.burden ≤ s.burden := by
  induction chain with
  | cut => exact Nat.le_refl _
  | off => exact Nat.le_refl _
  | idle => exact Nat.le_of_eq (burden_passOver _)
  | keep _ _ some => exact burden_handOver_le some
  | drop _ _ some => exact burden_dropJob_handOver_le some
  | @merge s t limit chosen _ _ some _ rest ih =>
    have handed := burden_handOver_le some
    have lighter := burden_settleMerged_lt (s.waits_handOver chosen)
    omega

theorem acts_mergeJob {direct : Prop} (orderly : s.Orderly) {job : Job R}
    (waits : job ∈ s.compactor.waiting) :
    Relation.ReflTransGen (Act direct) s (s.mergeJob job) :=
  have merged : Relation.ReflTransGen (Act direct) s (s.settleMerged job) := acts_settleMerged waits
  merged.trans (acts_pass (orderly.acts merged))

theorem drains_drainUpTo (orderly : s.Orderly) {limit : Nat} (enough : s.burden ≤ limit) :
    Drains s (s.drainUpTo mergeJob limit).2 (s.drainUpTo mergeJob limit).1 := by
  induction limit generalizing s with
  | zero =>
    have none : s.compactor.waiting.length = 0 := by
      rw [burden] at enough
      omega
    exact .done (List.length_eq_zero_iff.1 none)
  | succ limit ih =>
    cases queue : s.compactor.waiting with
    | nil =>
      simp only [drainUpTo, queue]
      exact .done queue
    | cons job rest =>
      have waits : job ∈ s.compactor.waiting := queue ▸ List.mem_cons_self
      have lighter := burden_settleMerged_lt waits
      have merged : Relation.ReflTransGen (Act False) s (s.mergeJob job) :=
        acts_mergeJob orderly waits
      have settled : Relation.ReflTransGen (Act False) s (s.settleMerged job) :=
        acts_settleMerged waits
      have passed : (s.mergeJob job).burden ≤ (s.settleMerged job).burden :=
        (chain_passUpTo (orderly.acts settled) _).burden_le
      simp only [drainUpTo, queue]
      exact .next queue (ih (orderly.acts merged) (by omega))

theorem drains_drain (orderly : s.Orderly) : Drains s s.drain.2 s.drain.1 := by
  refine drains_drainUpTo orderly ?_
  have fewer := s.compactor.tables.length_candidates_le
  exact Nat.add_le_add_right fewer _

end Site

end TieredCompaction
