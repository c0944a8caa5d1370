import TieredCompaction.Proofs.Site.Accounted
import TieredCompaction.Proofs.Site.InFlight
import TieredCompaction.Proofs.Site.Order
import TieredCompaction.Proofs.Site.Settling
/-!
A job that comes to nothing. It does not matter whether it fails or is dropped: its tables leave
flight and are candidates again, and nothing else changes but the number of failures. What a pass
has begun is thereby undone, and the next pass begins the same again.
-/
namespace TieredCompaction.Site

variable {R : Type} {s t u : Site R} {job : Job R}

theorem dropJob_eq_failJob (s : Site R) (job : Job R) (cause : Failure) :
    s.dropJob job =
      { s.failJob job cause with notices := (s.dropJob job).notices } := rfl

theorem failJob_compactor (s : Site R) (job : Job R) (cause : Failure) :
    (s.failJob job cause).compactor = { s.compactor with
      tables := s.compactor.tables.unhide job.tables
      waiting := s.compactor.waiting.filter (·.id != job.id) } := rfl

variable [Quantity R]

/-- The job has come to nothing. -/
structure GivesBack (s : Site R) (job : Job R) (t : Site R) : Prop where
  /-- Only what is in flight and what waits is another, -/
  compactor : t.compactor = { s.compactor with
    tables.hidden := t.compactor.tables.hidden
    waiting := t.compactor.waiting }
  /-- and of this the tables of the job, each once, -/
  inFlight : s.compactor.tables.hidden.Perm
    (job.tables.map (·.id) ++ t.compactor.tables.hidden)
  left : List.Disjoint (job.tables.map (·.id)) t.compactor.tables.hidden
  /-- and the job itself. -/
  waiting : t.compactor.waiting = s.compactor.waiting.filter (·.id != job.id)
  resolved : t.job? job.id = none
  /-- The tables of other jobs stay in flight. -/
  others : ∀ other ∈ t.compactor.waiting, ∀ x ∈ other.tables, x.id ∈ t.compactor.tables.hidden
  /-- The tables of the job are candidates again. -/
  candidates : t.candidates.Perm (s.candidates ++ job.tables)
  /-- The failure is counted. -/
  counters : t.counters = { s.counters with failed := s.counters.failed + 1 }
  /-- Nothing else has changed, the shelf with what is retired included. -/
  shelf : t.shelf = s.shelf
  ids : t.ids = s.ids
  clock : t.clock = s.clock

theorem givesBack_failJob (orderly : s.Orderly) (booked : s.Booked)
    (sound : s.compactor.tables.Sound) (waits : job ∈ s.compactor.waiting) (cause : Failure) :
    s.GivesBack job (s.failJob job cause) := by
  have distinct := booked.distinct_tables waits
  have live := booked.live job waits
  have after : (s.failJob job cause).Booked := booked.act orderly (.fail waits cause)
  have inFlight : ∀ t ∈ job.tables, t.id ∈ s.compactor.tables.hidden := by
    intro t given
    rw [booked.held]
    exact List.mem_flatMap.2 ⟨job, waits, List.mem_map_of_mem given⟩
  constructor
  case compactor => rfl
  case inFlight => exact TableSet.perm_hidden_unhide booked.distinct distinct inFlight
  case left =>
    intro id given stays
    exact (TableSet.mem_hidden_unhide.1 stays).2 given
  case waiting => rfl
  case resolved =>
    rw [job?, failJob_compactor, List.find?_eq_none]
    intro other remains
    simpa using (List.mem_filter.1 remains).2
  case others =>
    intro other remains x held
    rw [after.held]
    exact List.mem_flatMap.2 ⟨other, remains, List.mem_map_of_mem held⟩
  case candidates =>
    apply TableSet.perm_candidates_unhide orderly.tables distinct live _ inFlight
    intro t given
    exact Nat.pos_of_ne_zero (sound.full t (live t given))
  all_goals rfl

omit [Quantity R] in
/-- How the job came to nothing does not matter. -/
theorem GivesBack.dropJob (gives : s.GivesBack job (s.failJob job .cancelled)) :
    s.GivesBack job (s.dropJob job) where
  compactor := gives.compactor
  inFlight := gives.inFlight
  left := gives.left
  waiting := gives.waiting
  resolved := gives.resolved
  others := gives.others
  candidates := gives.candidates
  counters := gives.counters
  shelf := gives.shelf
  ids := gives.ids
  clock := gives.clock

/-- Wherever a job is selected, the next pass hands it over first. -/
theorem submitted_pass (orderly : s.Orderly) (on : s.compactor.enabled = true)
    {chosen : Selection R} (some : s.selection = some chosen) :
    s.compactor.submitted ++ [s.jobOf chosen] <+: s.pass.1.compactor.submitted := by
  have chain : Chain (s.tableCount + 1) s s.pass.1 := chain_passUpTo orderly _
  have handed : (s.handOver chosen).compactor.submitted =
      s.compactor.submitted ++ [s.jobOf chosen] := by
    rw [handOver_compactor]
  have later (more : Relation.ReflTransGen (Act False) (s.handOver chosen) s.pass.1) :
      s.compactor.submitted ++ [s.jobOf chosen] <+: s.pass.1.compactor.submitted := by
    rw [← handed]
    exact (grows_acts more).submitted
  generalize s.pass.1 = t at chain later ⊢
  cases chain with
  | off off => exact absurd (off.symm.trans on) Bool.false_ne_true
  | idle _ none => exact absurd (none.symm.trans some) (Option.some_ne_none _).symm
  | keep _ _ same =>
    cases Option.some.inj (same.symm.trans some)
    exact later .refl
  | drop _ _ same =>
    cases Option.some.inj (same.symm.trans some)
    exact later (.single (.drop (s.waits_handOver chosen)))
  | merge _ _ same _ rest =>
    cases Option.some.inj (same.symm.trans some)
    exact later ((acts_settleMerged (s.waits_handOver chosen)).trans rest.acts)

/-- At `t` everything is as it was at `s`, where a pass handed `job` over, and the next pass hands
over the same again as long as no table is read. -/
structure Undone (s : Site R) (job : Job R) (t : Site R) : Prop where
  tables : t.compactor.tables = s.compactor.tables
  again : ∀ ids shelf clock,
    (∀ x ∈ s.compactor.tables.live, shelf.hotness clock.instant x = s.hotness x) →
    ∃ next, next.tables = job.tables ∧ next.hotness = job.hotness ∧
      t.compactor.submitted ++ [next] <+:
        ((t.elsewhere ids shelf clock).perform .evaluate).compactor.submitted

/-- A site with the tables and the settings of another one selects the same for its next job. -/
theorem undone_of_tables (orderly : t.Orderly) (on : t.compactor.enabled = true)
    (tables : t.compactor.tables = s.compactor.tables)
    (options : t.compactor.options = s.compactor.options)
    (thresholds : t.compactor.thresholds = s.compactor.thresholds)
    {chosen : Selection R} (some : s.selection = some chosen) : Undone s (s.jobOf chosen) t := by
  refine ⟨tables, fun ids shelf clock unread => ?_⟩
  have meanwhile : Act False t (t.elsewhere ids shelf clock) := .elsewhere t ids shelf clock
  have later : (t.elsewhere ids shelf clock).Orderly := orderly.act meanwhile
  have alike : Alike s (t.elsewhere ids shelf clock) := by
    constructor
    case options => exact options.symm
    case thresholds => exact thresholds.symm
    case distinct => exact tables ▸ orderly.tables
    case live => exact .of_eq (congrArg TableSet.live tables).symm
    case hidden => exact fun id => by rw [← tables]; rfl
    case rates => exact fun x live => (unread x live).symm
  have again : (t.elsewhere ids shelf clock).selection = .some chosen :=
    alike.selection.symm.trans some
  exact ⟨(t.elsewhere ids shelf clock).jobOf chosen, rfl, rfl, submitted_pass later on again⟩

/-- A job that comes to nothing right after its pass leaves nothing of it. -/
theorem undone_handOver (orderly : t.Orderly) (on : s.compactor.enabled = true)
    {chosen : Selection R} (some : s.selection = some chosen)
    (same : t.compactor = ((s.handOver chosen).dropJob (s.jobOf chosen)).compactor) :
    Undone s (s.jobOf chosen) t := by
  have tables := tables_dropJob_handOver some
  rw [← same] at tables
  rw [dropJob_compactor, handOver_compactor] at same
  apply undone_of_tables orderly _ tables _ _ some
  · rw [same]
    exact on
  · rw [same]
    rfl
  · rw [same]
    rfl

omit [Quantity R] in
theorem job?_eq_some (orderly : s.Orderly) (waits : job ∈ s.compactor.waiting) :
    s.job? job.id = some job := by
  cases found : s.job? job.id with
  | none => simpa using List.find?_eq_none.1 found job waits
  | some other =>
    have same : other.id = job.id := by simpa using List.find?_some found
    rw [List.inj_on_of_nodup_map orderly.jobs (List.mem_of_find?_eq_some found) waits same]

theorem perform_failJob (orderly : s.Orderly) (waits : job ∈ s.compactor.waiting)
    (cause : Failure) : s.perform (.failJob job.id cause) = s.failJob job cause := by
  rw [perform, onJob, job?_eq_some orderly waits]

theorem perform_dropJob (orderly : s.Orderly) (waits : job ∈ s.compactor.waiting) :
    s.perform (.dropJob job.id) = s.dropJob job := by
  rw [perform, onJob, job?_eq_some orderly waits]

/-- Whatever is called in whatever order, as long as merges are reported through jobs: it does not
matter whether a waiting job fails or is dropped, and nothing changes but that its tables are
candidates again and a failure is counted. If it comes to nothing right after its pass, within the
queue or without, everything is as before that pass, and the next pass hands the same over. -/
theorem run_failure_gives_back (s : Site R) (o : Opening R) (calls : List (Call R))
    (viaJobs : ∀ call ∈ calls, call.direct = false) :
    let t := (s.opened o).run calls
    (∀ job ∈ t.compactor.waiting, ∀ cause,
      let failed := t.perform (.failJob job.id cause)
      let dropped := t.perform (.dropJob job.id)
      t.GivesBack job failed ∧ t.GivesBack job dropped ∧
        dropped = { failed with notices := dropped.notices }) ∧
    ∀ call u chosen, t.begins call = some u → u.compactor.enabled = true →
      u.selection = some chosen →
      ∃ job, job.tables = chosen.tables ∧
        u.compactor.submitted ++ [job] <+: (t.perform call).compactor.submitted ∧
        (u.compactor.intake = .keep → job ∈ (t.perform call).compactor.waiting ∧
          (∀ cause, Undone u job ((t.perform call).perform (.failJob job.id cause))) ∧
          Undone u job ((t.perform call).perform (.dropJob job.id))) ∧
        (u.compactor.intake = .drop → Undone u job (t.perform call)) := by
  intro t
  have opened := s.orderly_opened o
  have orderly : t.Orderly := opened.acts (acts_run_any opened calls)
  have booked : t.Booked := booked_run s o calls viaJobs
  constructor
  · intro job waits cause failed dropped
    have gives := givesBack_failJob orderly booked (sound_run s o calls) waits
    have failing : failed = t.failJob job cause := perform_failJob orderly waits cause
    have dropping : dropped = t.dropJob job := perform_dropJob orderly waits
    rw [failing, dropping]
    exact ⟨gives cause, (gives .cancelled).dropJob, t.dropJob_eq_failJob job cause⟩
  · intro call u chosen begins on some
    obtain ⟨before, performed⟩ := of_begins begins
    have starts : u.Orderly := orderly.acts before
    have handing : Act False u (u.handOver chosen) := .handOver on some
    have handed : (u.handOver chosen).Orderly := starts.act handing
    have waits := u.waits_handOver chosen
    have dropping : Act False (u.handOver chosen) ((u.handOver chosen).dropJob (u.jobOf chosen)) :=
      .drop waits
    have dropped : Undone u (u.jobOf chosen) ((u.handOver chosen).dropJob (u.jobOf chosen)) :=
      undone_handOver (handed.act dropping) on some rfl
    rw [performed]
    refine ⟨u.jobOf chosen, rfl, submitted_pass starts on some, fun keep => ?_, fun drop => ?_⟩
    · rw [pass, passUpTo_keep starts on some keep, perform_dropJob handed waits]
      refine ⟨waits, fun cause => ?_, dropped⟩
      have failing : Act False (u.handOver chosen)
          ((u.handOver chosen).failJob (u.jobOf chosen) cause) := .fail waits cause
      rw [perform_failJob handed waits]
      apply undone_handOver (handed.act failing) on some
      rw [failJob_compactor, dropJob_compactor]
    · rw [pass, passUpTo_drop starts on some drop]
      exact dropped

/-- While one job waits, it may fail, and so may the next one right after its pass. -/
theorem waiting_jobs_give_back :
    let large : List Table := (Table.samples [3, 4]).map fun table => { table with size := 1000000000 }
    let calls : List (Call Float) :=
      [.setThresholds ⟨2, 2, by decide, by decide⟩, .flush (Table.samples [1, 2] ++ large), .enable]
    let t := (sample.opened (.sample .keep)).run calls
    (∃ job ∈ t.compactor.waiting, job.tables.map (·.id) = [1, 2] ∧
      t.GivesBack job (t.perform (.failJob job.id (.io "disk full")))) ∧
    ∃ job ∈ (t.perform .evaluate).compactor.waiting, job.tables.map (·.id) = [3, 4] ∧
      Undone t job ((t.perform .evaluate).perform (.dropJob job.id)) := by
  intro large calls
  have gives := run_failure_gives_back sample (.sample .keep) calls (by decide)
  have one : [1, 2] ∈ ((sample.opened (.sample .keep)).run calls).compactor.waiting.map
      (·.tables.map (·.id)) := by decide +kernel
  have on : ((sample.opened (.sample .keep)).run calls).compactor.enabled = true := by
    decide +kernel
  have keeps : ((sample.opened (.sample .keep)).run calls).compactor.intake = .keep := by
    decide +kernel
  have next : ((sample.opened (.sample .keep)).run calls).selection.map
      (·.tables.map (·.id)) = some [3, 4] := by decide +kernel
  generalize (sample.opened (.sample .keep)).run calls = t at gives one on keeps next ⊢
  obtain ⟨resolved, undone⟩ := gives
  constructor
  · obtain ⟨job, waits, ids⟩ := List.mem_map.1 one
    obtain ⟨failed, _⟩ := resolved job waits (.io "disk full")
    exact ⟨job, waits, ids, failed⟩
  · obtain ⟨chosen, selected, ids⟩ := Option.map_eq_some_iff.1 next
    obtain ⟨job, tables, _, kept, _⟩ := undone .evaluate t chosen rfl on selected
    obtain ⟨waits, _, dropped⟩ := kept keeps
    exact ⟨job, waits, tables ▸ ids, dropped⟩

end TieredCompaction.Site
