import TieredCompaction.Proofs.Selection
import TieredCompaction.Proofs.Sorting
import TieredCompaction.Proofs.TableSet
import TieredCompaction.Event
/-!
Nothing looks at where tables are on the shelf but through their rates. If tables are put elsewhere,
with the same IDs and sizes, then sorting, grouping and choosing give the same tables there.
-/
namespace TieredCompaction

section Items

variable {α β : Type} {f : α → β}

namespace Bucket

def map (f : α → β) (b : Bucket α) : Bucket β :=
  { members := b.members.map fun member => (f member.1, member.2), total := b.total }

@[simp] theorem length_map (f : α → β) (b : Bucket α) : (b.map f).length = b.length :=
  List.length_map _

@[simp] theorem average_map (f : α → β) (b : Bucket α) : (b.map f).average = b.average := by
  rw [average, average, length_map]
  rfl

theorem push_map (f : α → β) (b : Bucket α) (x : α) (size : Nat) :
    (b.map f).push (f x, size) = (b.push (x, size)).map f := by
  simp [push, map]

end Bucket

def Trimmed.map {R : Type} (f : α → β) (t : Trimmed α R) : Trimmed β R :=
  { members := t.members.map fun member => (f member.1, member.2), hotness := t.hotness }

variable {R : Type} [Quantity R] (o : Options R)

theorem Options.place_map (bs : List (Bucket α)) (x : α) (size : Nat) :
    o.place (bs.map (·.map f)) (f x, size) = (o.place bs (x, size)).map (·.map f) := by
  induction bs with
  | nil => rfl
  | cons b rest ih =>
    simp only [List.map_cons, place, Bucket.average_map]
    split
    · rw [Bucket.push_map, List.map_cons]
    · rw [ih, List.map_cons]

theorem Options.buckets_map (items : List (α × Nat)) :
    o.buckets (items.map fun item => (f item.1, item.2)) = (o.buckets items).map (·.map f) := by
  have all (bs : List (Bucket α)) (items : List (α × Nat)) :
      (items.map fun item => (f item.1, item.2)).foldl o.place (bs.map (·.map f)) =
        (items.foldl o.place bs).map (·.map f) := by
    induction items generalizing bs with
    | nil => rfl
    | cons item rest ih => rw [List.map_cons, List.foldl_cons, o.place_map, ih, List.foldl_cons]
  rw [buckets, List.filter_map]
  exact all [] _

theorem hottestFirst_map (rate : β → R) (members : List (α × Nat)) :
    hottestFirst rate (members.map fun member => (f member.1, member.2)) =
      (hottestFirst (rate ∘ f) members).map fun rated => ((f rated.1.1, rated.1.2), rated.2) := by
  have sorted := sortBy_map (f := fun rated : (α × Nat) × R => ((f rated.1.1, rated.1.2), rated.2))
    (q := fun x y => Quantity.rankLe y.2 x.2) (r := fun x y => Quantity.rankLe y.2 x.2)
    (fun _ _ => rfl) (members.map fun member => (member, (rate ∘ f) member.1))
  rw [hottestFirst, hottestFirst, ← sorted, List.map_map, List.map_map]
  rfl

theorem Bucket.trim_map (rate : β → R) (limit : Nat) (b : Bucket α) :
    (b.map f).trim rate limit = (b.trim (rate ∘ f) limit).map f := by
  simp only [trim, map, hottestFirst_map, Trimmed.map, ← List.map_take, List.map_map]
  rfl

theorem Trimmed.before_map (f : α → β) (x y : Trimmed α R) :
    (x.map f).before (y.map f) = x.before y := by
  have lengths (t : Trimmed α R) : (t.map f).members.length = t.members.length := List.length_map _
  have averages (t : Trimmed α R) : (t.map f).average = t.average := by
    rw [average, average, lengths]
    simp only [sumBy, map, List.foldr_map]
  simp only [before, lengths, averages]
  rfl

theorem ranked_map (rate : β → R) (least greatest : Nat) (bs : List (Bucket α)) :
    ranked rate least greatest (bs.map (·.map f)) =
      (ranked (rate ∘ f) least greatest bs).map (·.map f) := by
  have trimmed : ((bs.map (·.map f)).filter (least ≤ ·.length)).map (·.trim rate greatest) =
      ((bs.filter (least ≤ ·.length)).map (·.trim (rate ∘ f) greatest)).map (·.map f) := by
    simp only [List.filter_map, List.map_map]
    refine congrArg₂ List.map (funext fun b => b.trim_map rate greatest) ?_
    simp [Function.comp_def]
  rw [ranked, ranked, trimmed, sortBy_map (Trimmed.before_map f)]

end Items

/-- Tables change in nothing but where they are. -/
structure Moves (f : Table → Table) : Prop where
  id : ∀ t, (f t).id = t.id
  size : ∀ t, (f t).size = t.size

def Selection.map {R : Type} (f : Table → Table) (chosen : Selection R) : Selection R :=
  { chosen with tables := chosen.tables.map f }

namespace Moves

variable {R : Type} [Quantity R] {f : Table → Table} (moves : Moves f) (o : Options R)
  (t : Thresholds) (tables : List Table)
include moves

omit [Quantity R] in
theorem ids : (tables.map f).map (·.id) = tables.map (·.id) := by
  rw [List.map_map]
  exact List.map_congr_left fun t _ => moves.id t

omit [Quantity R] in
theorem sum : sumBy Table.size (tables.map f) = sumBy Table.size tables := by
  simp only [sumBy, List.foldr_map, moves.size]

omit [Quantity R] in
theorem descriptors : (tables.map f).map Table.descriptor = tables.map Table.descriptor := by
  rw [List.map_map]
  exact List.map_congr_left fun t _ => by
    simp only [Function.comp_apply, Table.descriptor, moves.id, moves.size]

omit [Quantity R] in
theorem entries : (tables.map f).map Entry.ofTable = tables.map Entry.ofTable := by
  rw [List.map_map]
  exact List.map_congr_left fun t _ => by
    simp only [Function.comp_apply, Entry.ofTable, Table.descriptor, moves.id, moves.size]

theorem tableBuckets : o.tableBuckets (tables.map f) = (o.tableBuckets tables).map (·.map f) := by
  rw [Options.tableBuckets, Options.tableBuckets, ← o.buckets_map, List.map_map, List.map_map]
  exact congrArg _ (List.map_congr_left fun t _ => congrArg (f t, ·) (moves.size t))

theorem bucketIds : (o.tableBuckets (tables.map f)).map (fun b => b.items.map (·.id)) =
    (o.tableBuckets tables).map fun b => b.items.map (·.id) := by
  rw [moves.tableBuckets, List.map_map]
  refine List.map_congr_left fun b _ => ?_
  simp only [Function.comp_apply, Bucket.items, Bucket.map, List.map_map]
  exact List.map_congr_left fun member _ => moves.id member.1

theorem estimate : o.estimate t (tables.map f) = o.estimate t tables := by
  simp only [Options.estimate, moves.tableBuckets, sumBy, List.foldr_map, Options.jobsDue,
    Bucket.length_map]

theorem select (rate : Table → R) :
    o.select t rate (tables.map f) = (o.select t (rate ∘ f) tables).map (·.map f) := by
  rw [Options.select, Options.select, moves.tableBuckets, ranked_map, List.head?_map,
    Option.map_map, Option.map_map]
  refine congrArg (Option.map · _) (funext fun top => ?_)
  simp only [Function.comp_apply, Selection.map, Trimmed.items, Trimmed.map, List.map_map]
  rfl

end Moves

namespace TableSet

def map (f : Table → Table) (s : TableSet) : TableSet :=
  { s with live := s.live.map f }

variable {f : Table → Table} (moves : Moves f) (s : TableSet) (ts : List Table)
include moves

theorem candidates_map : (s.map f).candidates = s.candidates.map f := by
  have same : ∀ a b, (f a).sizeLe (f b) = a.sizeLe b := fun a b => by
    simp only [Table.sizeLe, moves.id, moves.size]
  rw [candidates, candidates, ← sortBy_map same, map, List.filter_map]
  refine congrArg (fun ts => sortBy _ (List.map f ts)) (List.filter_congr fun t _ => ?_)
  simp only [Function.comp_apply, isHidden, moves.id, moves.size]

theorem byId_map : (s.map f).byId = s.byId.map f := by
  rw [byId, byId, ← sortBy_map (r := fun a b => a.id ≤ b.id) fun a b => by
    rw [moves.id, moves.id]]
  rfl

theorem isLive_map (id : Nat) : (s.map f).isLive id = s.isLive id := by
  simp only [isLive, map, List.any_map]
  exact congrArg (List.any _) (funext fun t => by simp only [Function.comp_apply, moves.id])

theorem receive_map :
    (s.map f).receive (ts.map f) =
      ((s.receive ts).1.map f, (s.receive ts).2.map fun outcome => (f outcome.1, outcome.2)) := by
  induction ts generalizing s with
  | nil => rfl
  | cons t rest ih =>
    rw [List.map_cons, receive, receive, moves.size]
    by_cases empty : t.size = 0
    · simp only [if_pos empty, ih]
      rfl
    · by_cases live : s.isLive t.id = true
      · simp only [if_neg empty, add?, moves.id, isLive_map moves, if_pos live, ih]
        rfl
      · have next : ({ s.map f with live := (s.map f).live ++ [f t] } : TableSet) =
            ({ s with live := s.live ++ [t] } : TableSet).map f := by simp [map]
        simp only [if_neg empty, add?, moves.id, isLive_map moves, if_neg live, next, ih]
        rfl

theorem removeAll_map :
    (s.map f).removeAll (ts.map f) = ((s.removeAll ts).1.map f, (s.removeAll ts).2.map f) := by
  have kept (s : TableSet) (t : Table) : (s.map f).remove (f t) = (s.remove t).map f := by
    simp only [remove, map, List.filter_map, moves.id, Function.comp_def]
  have leaving (s : TableSet) (t : Table) : (s.map f).live.filter (·.id == (f t).id) =
      (s.live.filter (·.id == t.id)).map f := by
    simp only [map, List.filter_map, moves.id, Function.comp_def]
  induction ts generalizing s with
  | nil => rfl
  | cons t rest ih =>
    rw [List.map_cons, removeAll, removeAll]
    simp only [kept, leaving, ih, List.map_append]

omit moves in
theorem added_map (outcomes : List (Table × Reception)) :
    added (outcomes.map fun outcome => (f outcome.1, outcome.2)) = (added outcomes).map f := by
  simp only [added, List.filter_map, List.map_map]
  rfl

theorem unhide_map : (s.map f).unhide (ts.map f) = (s.unhide ts).map f := by
  simp only [unhide, map, List.any_map, Function.comp_def, moves.id]

end TableSet

end TieredCompaction
