import TieredCompaction.Proofs.Fleet.Errands
import TieredCompaction.Proofs.Site.Tally
/-!
Every job is resolved once and counted once, as long as its compactor is there. Once the last handle
is gone, resolving a job only takes it from the queue.
-/
namespace TieredCompaction

namespace Site

variable {R : Type} {s t : Site R}

theorem Tallied.congr (tallied : s.Tallied) (compactor : t.compactor = s.compactor)
    (counters : t.counters = s.counters) : t.Tallied :=
  tallied.of_same (by rw [compactor]) (by rw [compactor]) (by rw [counters]) (by rw [counters])

theorem tallied_opened {o : Opening R} (compactor : s.compactor = o.compactor)
    (counters : s.counters = {}) : s.Tallied where
  counted := by
    rw [compactor, counters]
    rfl
  balance := by
    rw [compactor, counters]
    rfl

end Site

namespace Fleet

variable {R : Type} [Quantity R] {f : Fleet R} {k : Nat} {m : Member R}

/-- The jobs of a member with counters of its own are counted as they are handed over, and counted
right as long as the member is there. -/
def Kept (f : Fleet R) (k : Nat) : Prop :=
  f.Owns k → ∀ m, f.members[k]? = some m →
    (f.siteOf m).counters.submitted = m.compactor.nextJob ∧
      (f.isHeld k = true → (f.siteOf m).Tallied)

omit [Quantity R] in
/-- Counters that nobody else uses start with nothing counted. -/
theorem counters_enroll (sound : f.Sound) {o : Opening R}
    (owns : (f.enroll o).Owns f.members.length)
    (there : (f.enroll o).members[f.members.length]? = some m) :
    ((f.enroll o).siteOf m).counters = {} := by
  obtain ⟨g, sources, notices, n, stocked, opened, used, after⟩ := f.enroll_eq o
  have last : (f.enroll o).members = f.members ++ [n] := by rw [after]
  rw [last, List.getElem?_concat_length, Option.some.injEq] at there
  subst there
  have untouched : n.cell ∉ f.cellsUsed := by
    intro shared
    obtain ⟨j, place⟩ := List.getElem?_of_mem shared
    have small : j < f.cellsUsed.length := (List.getElem?_eq_some_iff.1 place).1
    have cells : (f.enroll o).cellsUsed = f.cellsUsed ++ [n.cell] := by simp [cellsUsed, last]
    have length : f.cellsUsed.length = f.members.length := List.length_map _
    have same := owns n.cell (by rw [cells, ← length, List.getElem?_concat_length]) j
      (by rw [cells, List.getElem?_append_left small, place])
    omega
  have cells : (f.enroll o).cells = g.cells := by rw [after]
  rw [siteOf, cells, stocked.getD]
  exact sound.unused n.cell untouched

theorem kept_perform (sound : f.Sound) (kept : f.Kept k) {errand : Errand R}
    (viaJobs : ∀ call, errand = .call k call → call.direct = false ∧ call.counts = false) :
    (f.perform errand).Kept k := by
  intro owns n there
  have owned : f.Owns k := owns.of_prefix (f.cellsUsed_perform errand)
  cases member : f.members[k]? with
  | none =>
    obtain ⟨o, rfl, rfl, opened⟩ := perform_new member there
    have counters : ((f.enroll o).siteOf n).counters = {} := counters_enroll sound owns there
    have tallied : ((f.enroll o).siteOf n).Tallied := Site.tallied_opened opened counters
    exact ⟨tallied.counted, fun _ => tallied⟩
  | some m =>
    have small : k < f.members.length := (List.getElem?_eq_some_iff.1 member).1
    have orderly := sound.orderly m (List.mem_of_getElem? member)
    obtain ⟨handed, counted⟩ := kept owned m member
    rcases perform_cases member errand with
      ⟨call, called, held, after⟩ | ⟨released, id, told, after⟩ | ⟨same, counters⟩
    · obtain ⟨viaJobs, alone⟩ := viaJobs call called
      have tallied := (counted held).perform orderly viaJobs alone
      rw [after, members_putBack member, Option.some.injEq] at there
      rw [after, ← there]
      obtain ⟨compactor, counters⟩ := siteOf_putBack sound member ((f.siteOf m).perform call)
      have tallied := tallied.congr compactor counters
      exact ⟨tallied.counted, fun _ => tallied⟩
    · rw [after, members_putBack member, Option.some.injEq] at there
      obtain ⟨compactor, counters⟩ :=
        siteOf_putBack sound member (((f.siteOf m).withdraw id).noteAll told)
      constructor
      · rw [after, ← there, counters]
        exact handed
      · intro held
        have before := held_of_perform small errand held
        exact absurd (before.symm.trans released) Bool.noConfusion
    · rw [same, Option.some.injEq] at there
      rw [← there]
      have counters : ((f.perform errand).siteOf m).counters = (f.siteOf m).counters :=
        counters owned
      refine ⟨by rw [counters, handed], fun held => ?_⟩
      exact (counted (held_of_perform small errand held)).congr rfl counters

theorem kept_run (sound : f.Sound) (kept : f.Kept k) {errands : List (Errand R)}
    (viaJobs : ∀ call, .call k call ∈ errands → call.direct = false ∧ call.counts = false) :
    (f.run errands).Kept k := by
  induction errands generalizing f with
  | nil => exact kept
  | cons errand rest ih =>
    have first : (f.perform errand).Kept k :=
      kept_perform sound kept fun call called => viaJobs call (called ▸ List.mem_cons_self)
    exact ih (sound.perform errand) first
      fun call called => viaJobs call (List.mem_cons_of_mem _ called)

/-- A job of a member has been handed over and waits no more. -/
def Past (f : Fleet R) (k id : Nat) : Prop :=
  ∃ m, f.members[k]? = some m ∧ (f.siteOf m).Past id

theorem lasting_past (id : Nat) : Lasting fun s : Site R => s.Past id where
  of_compactor past same := past.of_compactor same
  act _ past act := past.act act
  withdraw past other := past.withdraw other

theorem lasting_numbered : Lasting fun s : Site R => s.Numbered where
  of_compactor numbered same := numbered.of_compactor same
  act _ numbered act := numbered.act act
  withdraw numbered id := numbered.withdraw id

/-- A job that is resolved, whether its compactor is there or not, does not wait afterwards. -/
theorem past_deliver (sound : f.Sound) (member : f.members[k]? = some m) {call : Call R} {id : Nat}
    (resolves : call.resolves = some id) (issued : id < m.compactor.nextJob) :
    (f.deliver k call).Past k id := by
  cases held : f.isHeld k with
  | true =>
    have orderly := sound.orderly m (List.mem_of_getElem? member)
    have past := Site.past_perform orderly resolves issued
    rw [deliver_of_held held member]
    exact ⟨_, members_putBack member _, past.issued, past.gone⟩
  | false =>
    obtain ⟨told, after⟩ := deliver_late held member resolves
    rw [after]
    refine ⟨_, members_putBack member _, issued, fun waits => ?_⟩
    obtain ⟨job, kept, same⟩ := List.mem_map.1 waits
    have differ := (List.mem_filter.1 kept).2
    simp [same] at differ

/-- Nobody resolves a job that does not wait. -/
theorem deliver_of_not_waiting (member : f.members[k]? = some m) {call : Call R} {id : Nat}
    (resolves : call.resolves = some id) (gone : id ∉ m.compactor.waiting.map (·.id)) :
    f.deliver k call = f := by
  have none : (f.waiting k).find? (·.id == id) = none := by
    rw [waiting_eq member, List.find?_eq_none]
    intro job waits same
    exact gone (List.mem_map.2 ⟨job, waits, by simpa using same⟩)
  cases call with
  | completeJob | failJob | dropJob =>
    cases resolves
    simp only [deliver, onJob, none]
  | _ => contradiction

/-- Whatever happens to a fleet, as long as nothing is reported about a member's tables but through
its jobs and nobody else uses its counters: its jobs are numbered from zero in the order in which
they were handed over, and as many are counted. While a handle of it is held, each of them waits or
has been counted once as completed or failed. A job can be resolved once only. When no handle is
held any more, resolving a job takes it from the queue, and nothing else changes. -/
theorem run_counts_jobs_once (clock : Clock) (shared : IdSource) (errands : List (Errand R))
    (k : Nat)
    (owns : ((empty clock shared).run errands).Owns k)
    (viaJobs : ∀ call, .call k call ∈ errands → call.direct = false ∧ call.counts = false) :
    let f := (empty clock shared).run errands
    ∀ m, f.members[k]? = some m →
      let s := f.siteOf m
      s.Numbered ∧ s.counters.submitted = s.compactor.submitted.length ∧
        (f.isHeld k = true →
          s.Tallied ∧ s.counters.running = s.compactor.waiting.length ∧
            s.counters.completed ≤ s.counters.submitted ∧
            s.counters.failed ≤ s.counters.submitted - s.counters.completed) ∧
        ∀ call id, call.resolves = some id →
          (id ∉ s.compactor.waiting.map (·.id) → f.deliver k call = f) ∧
          (id ∈ s.compactor.waiting.map (·.id) →
            ∀ later, ((f.deliver k call).run later).Past k id) ∧
          (f.isHeld k = false → ∃ notices, f.deliver k call = { f with
            members := f.members.set k
              { m with compactor.waiting := m.compactor.waiting.filter (·.id != id) }
            notices }) := by
  intro f m member s
  have sound : f.Sound := (sound_empty clock shared).run errands
  have kept : f.Kept k := by
    refine kept_run (sound_empty clock shared) (fun _ m member => ?_) viaJobs
    simp [empty] at member
  have numbered : s.Numbered :=
    lasting_numbered.everywhere Site.numbered_opened (sound_empty clock shared)
      (fun _ member => absurd member List.not_mem_nil) errands m (List.mem_of_getElem? member)
  obtain ⟨handed, counted⟩ := kept owns m member
  refine ⟨numbered, handed.trans numbered.length_submitted.symm, fun held => ?_, ?_⟩
  · have tallied := counted held
    exact ⟨tallied, tallied.running, tallied.not_truncated⟩
  · intro call id resolves
    refine ⟨deliver_of_not_waiting member resolves, fun waits later => ?_, fun released => ?_⟩
    · obtain ⟨job, waiting, named⟩ := List.mem_map.1 waits
      have orderly := sound.orderly m (List.mem_of_getElem? member)
      have issued : id < m.compactor.nextJob := named ▸ orderly.issued job waiting
      obtain ⟨n, there, past⟩ := past_deliver sound member resolves issued
      exact (lasting_past id).run (sound.deliver k call) there past later
    · obtain ⟨told, after⟩ := deliver_late released member resolves
      exact ⟨f.notices ++ told, after.trans (f.putBack_withdraw k m id told)⟩

/-- One job fails, and another one waits when the last handle is let go of. Its outputs change
nothing any more. The other compactor of the fleet has counters of its own. -/
theorem late_outputs_change_nothing :
    let o : Opening Float := .sample .keep
    let errands : List (Errand Float) :=
      [.enroll o, .enroll { o with registered := true, source := some 0 },
        .call 0 (.flush (Table.samples [1, 2, 3, 4])), .call 0 .enable,
        .call 0 (.failJob 0 (.io "disk full")), .duplicate 0, .call 0 .evaluate, .release 0,
        .release 2]
    let f := (empty { instant := 0, moment := ⟨0⟩ } ⟨100⟩).run errands
    ∃ m, f.members[0]? = some m ∧ (f.siteOf m).Numbered ∧ (f.siteOf m).counters.submitted = 2 ∧
      m.compactor.waiting.map (·.id) = [1] ∧
      ∃ notices, f.deliver 0 (.completeJob 1 (Table.samples [5])) = { f with
        members := f.members.set 0
          { m with compactor.waiting := m.compactor.waiting.filter (·.id != 1) }
        notices } := by
  intro o errands f
  have cells : f.cellsUsed = [0, 1] := by decide +kernel
  have owns : f.Owns 0 := by
    intro cell mine j its
    rw [cells] at mine its
    match j with
    | 0 => rfl
    | 1 => simp_all
    | j + 2 => simp at its
  have viaJobs : ∀ call, .call 0 call ∈ errands → call.direct = false ∧ call.counts = false := by
    intro call called
    simp only [errands, List.mem_cons, Errand.call.injEq, reduceCtorEq, true_and, false_or,
      List.not_mem_nil, or_false] at called
    rcases called with rfl | rfl | rfl | rfl <;> exact ⟨rfl, rfl⟩
  have some : (f.members[0]?).isSome = true := by decide +kernel
  obtain ⟨m, member⟩ := Option.isSome_iff_exists.1 some
  have jobs : (f.members[0]?).map (fun m =>
      ((f.siteOf m).counters.submitted, m.compactor.waiting.map (·.id))) =
        Option.some (2, [1]) := by
    decide +kernel
  have released : f.isHeld 0 = false := by decide +kernel
  obtain ⟨numbered, _, _, resolving⟩ :=
    run_counts_jobs_once { instant := 0, moment := ⟨0⟩ } ⟨100⟩ errands 0 owns viaJobs m member
  obtain ⟨_, _, late⟩ := resolving (.completeJob 1 (Table.samples [5])) 1 rfl
  rw [member, Option.map_some, Option.some.injEq, Prod.mk.injEq] at jobs
  exact ⟨m, member, numbered, jobs.1, jobs.2, late released⟩

end Fleet

end TieredCompaction
