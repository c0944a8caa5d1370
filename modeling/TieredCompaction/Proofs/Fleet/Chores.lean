import TieredCompaction.Proofs.Fleet.Errands
import TieredCompaction.Proofs.Site.Twin
/-!
What the owner of a compactor does: he calls it and resolves its jobs, makes and reads tables, draws
IDs, clones its handle and lets go of one. At the site of the compactor a chore does the same
wherever the tables stand.
-/
namespace TieredCompaction

/-- What the owner of a compactor can do. -/
inductive Chore (R : Type) where
  /-- Calls the compactor, if a handle of it is held, or resolves one of its jobs. -/
  | call (call : Call R)
  /-- Makes a table, under the next ID if none is given. -/
  | make (id? : Option Nat) (size : Nat)
  /-- Reads a table: its meter changes. -/
  | read (t : Table) (change : Meter R → Meter R)
  | draw
  | raise (id : Nat)
  /-- Clones a handle that is held. -/
  | clone
  /-- Lets go of a handle that is held. -/
  | leave

namespace Chore

variable {R : Type}

/-- The chore with its tables put elsewhere. -/
def map (f : Table → Table) : Chore R → Chore R
  | call asked => call (asked.map f)
  | read t change => read (f t) change
  | chore => chore

/-- The tables that come with a chore. -/
def tables : Chore R → List Table
  | call asked => asked.tables
  | read t _ => [t]
  | _ => []

def isOwn : Chore R → Bool
  | call asked => asked.isOwn
  | _ => true

/-- How many handles are held afterwards. -/
def handlesAfter (held : Nat) : Chore R → Nat
  | clone => if 0 < held then held + 1 else held
  | leave => held - 1
  | _ => held

theorem map_of_fixed {f : Table → Table} {chore : Chore R} (fixed : ∀ x ∈ chore.tables, f x = x) :
    chore.map f = chore := by
  cases chore with
  | call asked => exact congrArg call (Call.map_of_fixed fixed)
  | read t change => exact congrArg (read · change) (fixed t List.mem_cons_self)
  | _ => rfl

@[simp] theorem handlesAfter_map (f : Table → Table) (held : Nat) (chore : Chore R) :
    (chore.map f).handlesAfter held = chore.handlesAfter held := by
  cases chore <;> rfl

end Chore

namespace Site

variable {R : Type} [Quantity R]

/-- Puts a table on the shelf. Without an ID it gets the next one of the source. -/
def supply (s : Site R) (size : Nat) : Option Nat → Site R
  | some id => (s.makeTable id size).2
  | none => (s.drawId.2.makeTable s.drawId.1 size).2

/-- What a chore does at the site of a compactor. Without a handle of it, calls do no more than take
a job from the queue. -/
def serve (s : Site R) (held : Bool) : Chore R → Site R
  | .call call =>
    if held then s.perform call
    else match call.resolves with
      | some id => s.withdraw id
      | none => s
  | .make id? size => s.supply size id?
  | .read t change => s.onMeter t change
  | .draw => s.drawId.2
  | .raise id => { s with ids := s.ids.raise id }
  | .clone => s
  | .leave => s

theorem Orderly.serve {s : Site R} (orderly : s.Orderly) (held : Bool) (chore : Chore R) :
    (s.serve held chore).Orderly := by
  cases chore with
  | call call =>
    cases held with
    | true =>
      have acts : Relation.ReflTransGen (Act True) s (s.perform call) :=
        acts_perform orderly call fun _ => trivial
      exact orderly.acts acts
    | false =>
      simp only [Site.serve, Bool.false_eq_true, if_false]
      split
      · exact orderly.withdraw _
      · exact orderly
  | make id? size => cases id? <;> exact orderly.of_compactor rfl
  | _ => exact orderly.of_compactor rfl

/-- Whatever the owner of one of the twins does, with its tables, does the same at the other. -/
theorem Twin.serve {C : Counters → Counters → Prop} {old : Shelf R} {first places : List Nat}
    {s t : Site R} (twin : Twin C old first places t s) (steady : Counters.Steady C)
    (orderly : t.Orderly) (held : Bool) {chore : Chore R} (own : chore.isOwn = true)
    (named : ∀ x ∈ chore.tables, x.place < places.length) :
    ∃ more, Twin C old first (places ++ more) (t.serve held chore)
      (s.serve held (chore.map (Table.at places))) := by
  cases chore with
  | call call =>
    cases held with
    | true => exact twin.perform steady orderly own named
    | false =>
      have same : (call.map (Table.at places)).resolves = call.resolves := by cases call <;> rfl
      simp only [Site.serve, Chore.map, Bool.false_eq_true, if_false, same]
      split
      · exact (twin.withdraw _).nothing
      · exact twin.nothing
  | make id? size =>
    cases id? with
    | some id => exact ⟨_, (twin.makeTable id size).2⟩
    | none =>
      obtain ⟨same, drawn⟩ := twin.drawId
      have made := (drawn.makeTable t.drawId.1 size).2
      simp only [Site.serve, Chore.map, supply, same]
      exact ⟨_, made⟩
  | read x change => exact (twin.onMeter (named x List.mem_cons_self) change).nothing
  | draw => exact twin.drawId.2.nothing
  | raise id => exact (twin.raise id).nothing
  | clone => exact twin.nothing
  | leave => exact twin.nothing

end Site

/-- Whether it is held and leads to a member. -/
def Handle.leadsTo (member : Nat) (h : Handle) : Bool :=
  h.member == member && h.held

namespace Fleet

variable {R : Type} {f : Fleet R} {k : Nat} {m : Member R}

/-- How many handles of a member are held. -/
def ways (f : Fleet R) (member : Nat) : Nat :=
  f.handles.countP (Handle.leadsTo member)

theorem isHeld_eq (f : Fleet R) (k : Nat) : f.isHeld k = decide (0 < f.ways k) := by
  rw [Bool.eq_iff_iff, decide_eq_true_iff, ways, List.countP_pos_iff, isHeld, List.any_eq_true]
  rfl

variable [Quantity R]

/-- What the owner of a member does. Which of its handles he lets go of makes no difference. -/
def enact (f : Fleet R) (member : Nat) : Chore R → Fleet R
  | .call call => f.deliver member call
  | .make id? size =>
    match f.addTable member id? size (.fresh f.clock.instant) with
    | some (_, f) => f
    | none => f
  | .read t change => f.change member (·.onMeter t change)
  | .draw => f.change member (·.drawId.2)
  | .raise id => f.change member fun s => { s with ids := s.ids.raise id }
  | .clone => if f.isHeld member then f.duplicate { member, held := true } else f
  | .leave => f.release (f.handles.findIdx (Handle.leadsTo member))

omit [Quantity R] in
/-- One handle less is held, if one is. -/
theorem release_first (f : Fleet R) (k : Nat) :
    ∃ handles notices,
      f.release (f.handles.findIdx (Handle.leadsTo k)) = { f with handles, notices } ∧
      ∀ j, ({ f with handles } : Fleet R).ways j = if j = k then f.ways k - 1 else f.ways j := by
  rcases Nat.eq_zero_or_pos (f.ways k) with none | some
  · have absent : f.handles.findIdx (Handle.leadsTo k) = f.handles.length := by
      simpa [ways, List.countP_eq_zero, List.findIdx_eq_length] using none
    refine ⟨f.handles, f.notices, by simp [release, absent], fun j => ?_⟩
    split
    · next same => rw [same, none]
    · rfl
  · have small := List.findIdx_lt_length.2 (List.countP_pos_iff.1 some)
    have leads : f.handles[f.handles.findIdx (Handle.leadsTo k)].leadsTo k = true :=
      List.findIdx_getElem
    generalize f.handles.findIdx (Handle.leadsTo k) = i at *
    obtain ⟨named, held⟩ := Bool.and_eq_true_iff.1 leads
    obtain ⟨notices, after⟩ := f.release_held (List.getElem?_eq_getElem small) held
    have released : Handle.leadsTo k { f.handles[i] with held := false } = false := Bool.and_false _
    refine ⟨_, notices, after, fun j => ?_⟩
    rw [ways, List.countP_set small]
    by_cases same : j = k
    · simp only [same, leads, released, if_true, Bool.false_eq_true, if_false]
      rfl
    · have others (held : Bool) : Handle.leadsTo j { f.handles[i] with held } = false := by
        simp [Handle.leadsTo, beq_iff_eq.1 named, Ne.symm same]
      simp only [same, others f.handles[i].held, others false, Bool.false_eq_true, if_false]
      rfl

/-- A chore takes place at the site of the member, and changes how many handles of it are held. -/
theorem enact_eq (member : f.members[k]? = some m) (chore : Chore R) :
    ∃ handles notices, f.enact k chore =
        { f.putBack k m ((f.siteOf m).serve (f.isHeld k) chore) with handles, notices } ∧
      ∀ j, ({ f with handles } : Fleet R).ways j =
        if j = k then chore.handlesAfter (f.ways k) else f.ways j := by
  have nothing := putBack_siteOf member
  have same : ∀ j, f.ways j = if j = k then f.ways k else f.ways j := by
    intro j
    split
    · next same => rw [same]
    · rfl
  cases chore with
  | call call =>
    cases held : f.isHeld k with
    | true => exact ⟨f.handles, _, deliver_of_held held member call, same⟩
    | false =>
      cases resolves : call.resolves with
      | none =>
        refine ⟨f.handles, f.notices, ?_, same⟩
        simp only [enact, deliver_nothing held resolves, Site.serve, resolves, Bool.false_eq_true,
          if_false, nothing]
      | some id =>
        obtain ⟨told, after⟩ := deliver_late held member resolves
        refine ⟨f.handles, f.notices ++ told, ?_, same⟩
        simp only [enact, after, Site.serve, resolves, Bool.false_eq_true, if_false]
        rfl
  | make id? size =>
    refine ⟨f.handles, f.notices, ?_, same⟩
    cases id? <;> simp only [enact, addTable, act, member, Option.map_some] <;> rfl
  | read t change => exact ⟨f.handles, f.notices, change_eq member _, same⟩
  | draw => exact ⟨f.handles, f.notices, change_eq member _, same⟩
  | raise id => exact ⟨f.handles, f.notices, change_eq member _, same⟩
  | clone =>
    simp only [enact, Site.serve, nothing, f.isHeld_eq k, decide_eq_true_eq, Chore.handlesAfter]
    split
    · refine ⟨f.handles ++ [{ member := k, held := true }], f.notices, rfl, fun j => ?_⟩
      by_cases mine : j = k
      · simp [ways, Handle.leadsTo, mine]
      · simp [ways, Handle.leadsTo, mine, Ne.symm mine]
    · exact ⟨f.handles, f.notices, rfl, same⟩
  | leave =>
    simp only [enact, Site.serve, nothing]
    exact f.release_first k

end Fleet

end TieredCompaction
