import TieredCompaction.Fleet
import TieredCompaction.Proofs.Site.Acts
/-!
Runs of a compactor from its opening: any calls in any order, with what others do in between. A
queue may deal differently with each job. If it throws a job away or merges it before it returns, that
is its intake; whatever else it does with a job there, it might as well keep the job, and do it by a call
right after (`Site.exists_run_runAnswering`). Meters that keep what they fold in for a reading are other
meters `elsewhere` (`Site.exists_elsewhere_passKeeping`).
-/
namespace TieredCompaction

/-- What can happen to a compactor. Jobs are named by their IDs. -/
inductive Call (R : Type) where
  | enable
  | disable
  | flush (tables : List Table)
  | evaluate
  | setThresholds (t : Thresholds)
  | completeJob (job : Nat) (outputs : List Table)
  | failJob (job : Nat) (cause : Failure)
  | dropJob (job : Nat)
  /-- Reports a merge, whoever made it. -/
  | complete (start : Moment) (inputs : List Table) (stop : Moment) (outputs : List Table)
  /-- Reports the failure of a merge, whoever tried it. -/
  | giveBack (inputs : List Table) (cause : Failure)
  /-- The queue will treat jobs differently. -/
  | setIntake (intake : Intake)
  /-- Time passes, and others draw IDs, read tables and make new ones. -/
  | elsewhere (ids : IdSource) (shelf : Shelf R) (clock : Clock)
  /-- Another owner of the counters changes them. -/
  | count (counters : Counters)

/-- Whether a call reports on tables without a job. -/
def Call.direct {R : Type} : Call R → Bool
  | complete .. | giveBack .. => true
  | _ => false

/-- Whether a call is one of another owner of the counters. -/
def Call.counts {R : Type} : Call R → Bool
  | count _ => true
  | _ => false

namespace Site

variable {R : Type}

/-- A compactor that has just been opened, and nothing else changed. -/
def opened (s : Site R) (o : Opening R) : Site R :=
  { s with compactor := o.compactor }

theorem orderly_opened (s : Site R) (o : Opening R) : (s.opened o).Orderly where
  tables := List.nodup_nil
  jobs := List.nodup_nil
  issued _ waits := absurd waits List.not_mem_nil

/-- Does something with the waiting job of an ID, if there is one. -/
def onJob (s : Site R) (id : Nat) (f : Site R → Job R → Site R) : Site R :=
  match s.job? id with
  | some job => f s job
  | none => s

variable [Quantity R]

def perform (s : Site R) : Call R → Site R
  | .enable => s.enable.1
  | .disable => s.disable.1
  | .flush tables => s.flush tables
  | .evaluate => s.pass.1
  | .setThresholds t => s.setThresholds t
  | .completeJob id outputs => s.onJob id fun s job => s.completeJob job outputs
  | .failJob id cause => s.onJob id fun s job => s.failJob job cause
  | .dropJob id => s.onJob id dropJob
  | .complete start inputs stop outputs => s.complete start inputs stop outputs
  | .giveBack inputs cause => s.giveBack inputs cause
  | .setIntake intake => s.setIntake intake
  | .elsewhere ids shelf clock => s.elsewhere ids shelf clock
  | .count counters => s.count counters

def run (s : Site R) (calls : List (Call R)) : Site R :=
  calls.foldl perform s

/-- A chain of at most so many passes, by what each of them does: the ways in which a chain can end,
and the merge that is followed by the rest of the chain. -/
inductive Chain : Nat → Site R → Site R → Prop where
  | cut {s} : Chain 0 s s
  | off {s limit} (off : s.compactor.enabled = false) : Chain limit s s
  | idle {s limit} (on : s.compactor.enabled = true) (none : s.selection = none) :
      Chain (limit + 1) s s.passOver
  | keep {s limit chosen} (orderly : s.Orderly) (on : s.compactor.enabled = true)
      (some : s.selection = some chosen) (keep : s.compactor.intake = .keep) :
      Chain (limit + 1) s (s.handOver chosen)
  | drop {s limit chosen} (orderly : s.Orderly) (on : s.compactor.enabled = true)
      (some : s.selection = some chosen) (drop : s.compactor.intake = .drop) :
      Chain (limit + 1) s ((s.handOver chosen).dropJob (s.jobOf chosen))
  | merge {s t limit chosen} (orderly : s.Orderly) (on : s.compactor.enabled = true)
      (some : s.selection = some chosen) (merge : s.compactor.intake = .merge)
      (rest : Chain limit ((s.handOver chosen).settleMerged (s.jobOf chosen)) t) :
      Chain (limit + 1) s t

open Relation (ReflTransGen)

variable {s t : Site R} {direct : Prop}

theorem acts_settleMerged {job : Job R} (waits : job ∈ s.compactor.waiting) :
    ReflTransGen (Act direct) s (s.settleMerged job) := by
  have made : Act direct s (s.mergeOutput job).2 := .elsewhere s _ _ s.clock
  have settled : Act direct (s.mergeOutput job).2 (s.settleMerged job) :=
    .settle (show job ∈ (s.mergeOutput job).2.compactor.waiting from waits) _
  exact .tail (.single made) settled

theorem waits_handOver (s : Site R) (chosen : Selection R) :
    s.jobOf chosen ∈ (s.handOver chosen).compactor.waiting := by
  rw [handOver_compactor]
  exact List.mem_append_right _ (List.mem_singleton_self _)

theorem acts_merged (on : s.compactor.enabled = true) {chosen : Selection R}
    (some : s.selection = some chosen) :
    ReflTransGen (Act direct) s ((s.handOver chosen).settleMerged (s.jobOf chosen)) :=
  .head (.handOver on some) (acts_settleMerged (s.waits_handOver chosen))

theorem chain_passUpTo (orderly : s.Orderly) (limit : Nat) :
    Chain limit s (s.passUpTo limit).1 := by
  induction limit generalizing s with
  | zero => exact .cut
  | succ limit ih =>
    cases enabled : s.compactor.enabled with
    | false =>
      rw [passUpTo_off enabled]
      exact .off enabled
    | true =>
      cases selected : s.selection with
      | none =>
        rw [passUpTo_none enabled selected]
        exact .idle enabled selected
      | some chosen =>
        cases intake : s.compactor.intake with
        | keep =>
          rw [passUpTo_keep orderly enabled selected intake]
          exact .keep orderly enabled selected intake
        | drop =>
          rw [passUpTo_drop orderly enabled selected intake]
          exact .drop orderly enabled selected intake
        | merge =>
          have merged : ReflTransGen (Act False) s _ := acts_merged enabled selected
          rw [passUpTo_merge orderly enabled selected intake]
          exact .merge orderly enabled selected intake (ih (orderly.acts merged))

theorem Chain.acts {limit : Nat} (chain : Chain limit s t) : ReflTransGen (Act direct) s t := by
  induction chain with
  | cut => exact .refl
  | off => exact .refl
  | idle on none => exact .single (.passOver on none)
  | keep _ on some => exact .single (.handOver on some)
  | @drop s limit chosen _ on some =>
    exact .tail (.single (.handOver on some)) (.drop (s.waits_handOver chosen))
  | merge _ on some _ _ ih => exact (acts_merged on some).trans ih

theorem acts_passUpTo (orderly : s.Orderly) (limit : Nat) :
    ReflTransGen (Act direct) s (s.passUpTo limit).1 :=
  (chain_passUpTo orderly limit).acts

theorem acts_pass (orderly : s.Orderly) : ReflTransGen (Act direct) s s.pass.1 :=
  acts_passUpTo orderly _

private theorem acts_then_pass (orderly : s.Orderly) (act : Act direct s t) :
    ReflTransGen (Act direct) s t.pass.1 :=
  .head act (acts_pass (orderly.act act))

private theorem acts_onJob {id : Nat} {f : Site R → Job R → Site R}
    (acts : ∀ job ∈ s.compactor.waiting, ReflTransGen (Act direct) s (f s job)) :
    ReflTransGen (Act direct) s (s.onJob id f) := by
  rw [onJob]
  split
  · next job found => exact acts job (List.mem_of_find?_eq_some found)
  · exact .refl

theorem acts_perform (orderly : s.Orderly) (call : Call R) (allowed : call.direct = true → direct) :
    ReflTransGen (Act direct) s (s.perform call) := by
  cases call with
  | enable =>
    cases enabled : s.compactor.enabled with
    | false =>
      rw [perform, enable_of_off enabled]
      exact acts_then_pass orderly (.switchOn enabled)
    | true =>
      rw [perform, enable_of_on enabled]
  | disable =>
    cases enabled : s.compactor.enabled with
    | false =>
      rw [perform, disable_of_off enabled]
    | true => exact .single (.switchOff enabled)
  | flush tables =>
    rw [perform, flush_eq]
    split
    · exact .single (.takeIn s tables)
    · exact acts_then_pass orderly (.takeIn s tables)
  | evaluate => exact acts_pass orderly
  | setThresholds t => exact .single (.setThresholds s t)
  | completeJob id outputs =>
    rw [perform]
    exact acts_onJob fun job waits => acts_then_pass orderly (.settle waits outputs)
  | failJob id cause =>
    rw [perform]
    exact acts_onJob fun job waits => .single (.fail waits cause)
  | dropJob id => exact acts_onJob fun job waits => .single (.drop waits)
  | complete start inputs stop outputs =>
    exact acts_then_pass orderly (.replace s (allowed rfl) start inputs stop outputs)
  | giveBack inputs cause => exact .single (.giveBack s (allowed rfl) inputs cause)
  | setIntake intake => exact .single (.setIntake s intake)
  | elsewhere ids shelf clock => exact .single (.elsewhere s ids shelf clock)
  | count counters => exact .single (.count s counters)

theorem acts_run (orderly : s.Orderly) (calls : List (Call R))
    (allowed : ∀ call ∈ calls, call.direct = true → direct) :
    ReflTransGen (Act direct) s (s.run calls) := by
  induction calls generalizing s with
  | nil => exact .refl
  | cons call rest ih =>
    have first := acts_perform orderly call (allowed call List.mem_cons_self)
    exact first.trans (ih (orderly.acts first)
      fun other member => allowed other (List.mem_cons_of_mem _ member))

/-- What every act keeps at an orderly site holds along all runs. -/
theorem invariant {P : Site R → Prop}
    (keeps : ∀ {s t : Site R}, s.Orderly → P s → Act direct s t → P t)
    (acts : ReflTransGen (Act direct) s t) (orderly : s.Orderly) (initial : P s) : P t := by
  induction acts with
  | refl => exact initial
  | tail before act ih => exact keeps (orderly.acts before) ih act

theorem acts_run_any (orderly : s.Orderly) (calls : List (Call R)) :
    ReflTransGen (Act True) s (s.run calls) :=
  acts_run orderly calls fun _ _ _ => trivial

theorem options_run (orderly : s.Orderly) (calls : List (Call R)) :
    (s.run calls).compactor.options = s.compactor.options :=
  invariant (P := fun t => t.compactor.options = s.compactor.options)
    (fun _ same act => (options_act act).trans same) (acts_run_any orderly calls) orderly rfl

/-- A site at which nothing has happened, with a store of standard options. -/
def sample : Site Float :=
  { compactor :=
      { store := { keyspace := "ks", table := "t" }
        options := .standard
        thresholds := .standard }
    counters := {}
    ids := ⟨100⟩
    shelf := .empty
    clock := { instant := 0, moment := ⟨0⟩ }
    notices := [] }

end Site

/-- The opening of a store with standard options. -/
def Opening.sample (intake : Intake) : Opening Float :=
  { store := { keyspace := "ks", table := "t" }
    options := .standard
    thresholds := .standard
    intake
    registered := false
    source := none }

/-- Tables of ten bytes. -/
def Table.samples (ids : List Nat) : List Table :=
  ids.map fun id => { id, size := 10, place := 0 }

end TieredCompaction
