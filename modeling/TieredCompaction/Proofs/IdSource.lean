import TieredCompaction.Job
import Mathlib.Data.List.Perm.Subperm
import Mathlib.Data.List.Nodup
/-!
A source of IDs that many share. What is done with it is kept as a list, in order: IDs are drawn,
the source is raised, and tables are handed over under IDs. As long as the source does not run out,
no ID is drawn twice.
-/
namespace TieredCompaction

/-- What is done with the IDs of a source. -/
inductive Dealing where
  | drew (id : Nat)
  | raised (id : Nat)
  /-- A table is handed over under an ID. -/
  | handed (id : Nat)
  deriving DecidableEq, Repr

namespace Dealing

/-- An ID that is drawn is greater than one drawn before, and not below what the source was raised
to before. -/
def Before : Dealing → Dealing → Prop
  | drew id, drew later => id < later
  | raised id, drew later => id ≤ later
  | _, _ => True

def drawn? : Dealing → Option Nat
  | drew id => some id
  | _ => none

def handed? : Dealing → Option Nat
  | handed id => some id
  | _ => none

def drawn (dealings : List Dealing) : List Nat :=
  dealings.filterMap drawn?

def handedOver (dealings : List Dealing) : List Nat :=
  dealings.filterMap handed?

variable {dealings more : List Dealing} {id : Nat}

theorem mem_drawn : id ∈ drawn dealings ↔ .drew id ∈ dealings := by
  simp only [drawn, List.mem_filterMap]
  constructor
  · rintro ⟨dealing, member, same⟩
    cases dealing with
    | drew other => rwa [← Option.some.inj same]
    | _ => contradiction
  · exact fun member => ⟨.drew id, member, rfl⟩

theorem handedOver_append (dealings more : List Dealing) :
    handedOver (dealings ++ more) = handedOver dealings ++ handedOver more :=
  List.filterMap_append

theorem handedOver_handed (ids : List Nat) : handedOver (ids.map .handed) = ids := by
  induction ids with
  | nil => rfl
  | cons id rest ih => exact congrArg (id :: ·) ih

theorem nodup_drawn (ordered : dealings.Pairwise Before) : (drawn dealings).Nodup := by
  refine (List.Pairwise.filterMap drawn? (S := (· < ·)) ?_ ordered).imp Nat.ne_of_lt
  intro dealing later before id drew next drewNext
  cases dealing <;> cases later <;> simp_all [drawn?, Before]

/-- If every table that is handed over has an ID that was drawn for it, no two have the same. -/
theorem nodup_handedOver (ordered : dealings.Pairwise Before)
    (backed : (handedOver dealings).Subperm (drawn dealings)) : (handedOver dealings).Nodup := by
  obtain ⟨some, same, part⟩ := backed
  exact same.nodup_iff.1 ((nodup_drawn ordered).sublist part)

end Dealing

namespace IdSource

/-- The dealings lead from one state of a source to another. -/
inductive Deals : IdSource → List Dealing → IdSource → Prop where
  | nil {s} : Deals s [] s
  | draw {s rest t} (later : Deals s.draw.2 rest t) : Deals s (.drew s.draw.1 :: rest) t
  | raise {s rest t} (id : Nat) (later : Deals (s.raise id) rest t) : Deals s (.raised id :: rest) t
  | hand {s rest t} (id : Nat) (later : Deals s rest t) : Deals s (.handed id :: rest) t

variable {s t u : IdSource} {dealings more : List Dealing}

namespace Deals

theorem append (first : Deals s dealings t) (second : Deals t more u) :
    Deals s (dealings ++ more) u := by
  induction first with
  | nil => exact second
  | draw _ ih => exact (ih second).draw
  | raise id _ ih => exact (ih second).raise id
  | hand id _ ih => exact (ih second).hand id

theorem handed (s : IdSource) (ids : List Nat) : Deals s (ids.map .handed) s := by
  induction ids with
  | nil => exact .nil
  | cons id rest ih => exact ih.hand id

/-- As long as the source does not run out, IDs are drawn in ascending order, from where it starts,
and never below what it was raised to. -/
theorem ordered (deals : Deals s dealings t)
    (unwrapped : ∀ id, .drew id ∈ dealings → id + 1 < UInt64.size) :
    dealings.Pairwise Dealing.Before ∧ s.next ≤ t.next ∧
      ∀ id, .drew id ∈ dealings → s.next ≤ id ∧ id < t.next := by
  induction deals with
  | nil => exact ⟨.nil, Nat.le_refl _, fun _ drew => absurd drew List.not_mem_nil⟩
  | @draw s rest t later ih =>
    obtain ⟨ordered, grows, drawn⟩ := ih fun id drew => unwrapped id (List.mem_cons_of_mem _ drew)
    have next : s.draw.2.next = s.next + 1 := Nat.mod_eq_of_lt (unwrapped s.next List.mem_cons_self)
    rw [next] at grows drawn
    refine ⟨List.pairwise_cons.2 ⟨fun dealing member => ?_, ordered⟩, by omega, fun id drew => ?_⟩
    · cases dealing with
      | drew id => exact (drawn id member).1
      | _ => trivial
    · rcases List.mem_cons.1 drew with same | after
      · rw [Dealing.drew.inj same]
        exact ⟨Nat.le_refl _, grows⟩
      · have bounds := drawn id after
        exact ⟨by omega, bounds.2⟩
  | @raise s rest t least later ih =>
    obtain ⟨ordered, grows, drawn⟩ := ih fun id drew => unwrapped id (List.mem_cons_of_mem _ drew)
    have next : (s.raise least).next = max s.next least := rfl
    rw [next] at grows drawn
    refine ⟨List.pairwise_cons.2 ⟨fun dealing member => ?_, ordered⟩, by omega, fun id drew => ?_⟩
    · cases dealing with
      | drew id => exact Nat.le_trans (Nat.le_max_right _ _) (drawn id member).1
      | _ => trivial
    · have bounds := drawn id ((List.mem_cons.1 drew).resolve_left nofun)
      exact ⟨by omega, bounds.2⟩
  | @hand s rest t id later ih =>
    obtain ⟨ordered, grows, drawn⟩ := ih fun id drew => unwrapped id (List.mem_cons_of_mem _ drew)
    refine ⟨List.pairwise_cons.2 ⟨fun dealing member => ?_, ordered⟩, grows, fun id drew => ?_⟩
    · cases dealing <;> trivial
    · exact drawn id ((List.mem_cons.1 drew).resolve_left nofun)

end Deals

end IdSource

end TieredCompaction
