import TieredCompaction.Proofs.Bucket.Ascending
import Mathlib.Data.List.FinRange
import Mathlib.Data.List.Nodup
import Mathlib.Order.Defs.LinearOrder
/-!
Bucketing by first match, told without the scan. Buckets are lists of places in the input; each item
is in the first of the buckets begun before it that accepts it, as these buckets stood then, or it
begins one. Exactly one list of buckets is like this, and it is the one that the scan ends with.
-/
namespace TieredCompaction

variable {α ι R : Type} [Quantity R]

/-- The bucket with the items at some places. -/
def Bucket.ofPlaces (item : ι → α × Nat) (places : List ι) : Bucket α :=
  { members := places.map item, total := min (sumBy (·.2) (places.map item)) maxTotal }

theorem Bucket.push_ofPlaces (item : ι → α × Nat) (places : List ι) (i : ι) :
    (ofPlaces item places).push (item i) = ofPlaces item (places ++ [i]) := by
  simp only [ofPlaces, push, List.map_append, List.map_cons, List.map_nil, sumBy_append, sumBy_cons,
    sumBy_nil, Bucket.mk.injEq, true_and]
  omega

theorem Bucket.single_ofPlaces {item : ι → α × Nat} {i : ι} (word : (item i).2 < UInt64.size) :
    single (item i) = ofPlaces item [i] := by
  have fits : (item i).2 ≤ maxTotal := Nat.le_sub_one_of_lt word
  simp [single, ofPlaces, fits]

namespace Options

/-- One step of the scan, on places: the item joins the first bucket that accepts it or starts one
behind all others. -/
inductive Seated (accepts : List ι → Bool) (i : ι) : List (List ι) → List (List ι) → Prop where
  | joins {front : List (List ι)} {ps : List ι} {back : List (List ι)}
      (refused : ∀ qs ∈ front, accepts qs = false) (accepted : accepts ps = true) :
      Seated accepts i (front ++ ps :: back) (front ++ (ps ++ [i]) :: back)
  | starts {all : List (List ι)} (refused : ∀ qs ∈ all, accepts qs = false) :
      Seated accepts i all (all ++ [[i]])

/-- Whether the bucket with the items at some places takes in the item at another one. -/
def takesIn (o : Options R) (item : ι → α × Nat) (i : ι) (places : List ι) : Bool :=
  o.accepts (Bucket.ofPlaces item places).average (item i).2

section Steps

variable {o : Options R} {item : ι → α × Nat} {accepts : List ι → Bool} {i : ι}
  {all next : List (List ι)}

theorem exists_seated (accepts : List ι → Bool) (i : ι) (all : List (List ι)) :
    ∃ next, Seated accepts i all next := by
  cases found : all.find? accepts with
  | none =>
    refine ⟨_, .starts fun qs member => ?_⟩
    simpa using List.find?_eq_none.1 found qs member
  | some ps =>
    obtain ⟨accepted, front, back, rfl, refused⟩ := List.find?_eq_some_iff_append.1 found
    exact ⟨_, .joins (fun qs member => by simpa using refused qs member) accepted⟩

theorem Seated.place (word : (item i).2 < UInt64.size) (seated : Seated (o.takesIn item i) i all next) :
    o.place (all.map (Bucket.ofPlaces item)) (item i) = next.map (Bucket.ofPlaces item) := by
  have refuses {front : List (List ι)} (refused : ∀ qs ∈ front, o.takesIn item i qs = false) :
      ∀ b ∈ front.map (Bucket.ofPlaces item), o.accepts b.average (item i).2 = false := by
    intro b member
    obtain ⟨qs, held, rfl⟩ := List.mem_map.1 member
    exact refused qs held
  cases seated with
  | joins refused accepted =>
    rw [takesIn] at accepted
    rw [List.map_append, List.map_append, place_append (refuses refused), List.map_cons, Options.place,
      if_pos accepted, Bucket.push_ofPlaces, List.map_cons]
  | starts refused =>
    have last := place_append (refuses refused) []
    rw [List.append_nil] at last
    rw [last, Options.place, Bucket.single_ofPlaces word, List.map_append, List.map_singleton]

theorem Seated.perm_flatten (seated : Seated accepts i all next) :
    next.flatten.Perm (all.flatten ++ [i]) := by
  cases seated with
  | joins =>
    simp only [List.flatten_append, List.flatten_cons, List.append_assoc]
    refine .append_left _ (.append_left _ ?_)
    exact List.perm_append_comm
  | starts => simp

/-- A bucket stays as it is or takes the item in, at its end. -/
theorem Seated.grown (seated : Seated accepts i all next) {ps : List ι} (member : ps ∈ all) :
    ∃ qs ∈ next, qs = ps ∨ qs = ps ++ [i] := by
  cases seated with
  | joins =>
    rcases List.mem_append.1 member with before | after
    · exact ⟨ps, List.mem_append_left _ before, .inl rfl⟩
    · rcases List.mem_cons.1 after with rfl | after
      · exact ⟨ps ++ [i], by simp, .inr rfl⟩
      · exact ⟨ps, by simp [after], .inl rfl⟩
  | starts => exact ⟨ps, List.mem_append_left _ member, .inl rfl⟩

theorem Seated.from (seated : Seated accepts i all next) {qs : List ι} (member : qs ∈ next) :
    qs ∈ all ∨ (∃ ps ∈ all, qs = ps ++ [i]) ∨ qs = [i] := by
  cases seated with
  | joins =>
    simp only [List.mem_append, List.mem_cons] at member ⊢
    rcases member with before | rfl | after
    · exact .inl (.inl before)
    · exact .inr (.inl ⟨_, .inr (.inl rfl), rfl⟩)
    · exact .inl (.inr (.inr after))
  | starts =>
    rcases List.mem_append.1 member with old | new
    · exact .inl old
    · exact .inr (.inr (List.mem_singleton.1 new))

/-- The item's own bucket is the first one that accepts it, or is new. -/
theorem Seated.own (seated : Seated accepts i all next) :
    ((all.find? accepts).getD []) ++ [i] ∈ next := by
  cases seated with
  | @joins front ps back refused accepted =>
    have none : front.find? accepts = none :=
      List.find?_eq_none.2 fun qs member => by simp [refused qs member]
    simp [none, accepted]
  | starts refused =>
    have none : all.find? accepts = none :=
      List.find?_eq_none.2 fun qs member => by simp [refused qs member]
    simp [none]

end Steps

section Restriction

/-- Buckets without the places that fail a condition. Those with no place left are left out. -/
def restrict (p : ι → Bool) (all : List (List ι)) : List (List ι) :=
  (all.map (·.filter p)).filter (· ≠ [])

variable {p q : ι → Bool} {all : List (List ι)}

theorem restrict_append (p : ι → Bool) (front back : List (List ι)) :
    restrict p (front ++ back) = restrict p front ++ restrict p back := by
  simp [restrict]

theorem restrict_cons (p : ι → Bool) (ps : List ι) (all : List (List ι)) :
    restrict p (ps :: all) =
      if ps.filter p = [] then restrict p all else ps.filter p :: restrict p all := by
  by_cases none : ps.filter p = []
  · simp [restrict, none]
  · rw [if_neg none, restrict, List.map_cons, List.filter_cons, if_pos (decide_eq_true none), restrict]

theorem restrict_congr (same : ∀ ps ∈ all, ∀ x ∈ ps, p x = q x) : restrict p all = restrict q all := by
  rw [restrict, restrict, List.map_congr_left fun ps member => List.filter_congr (same ps member)]

theorem restrict_eq_self (filled : ∀ ps ∈ all, ps ≠ []) (kept : ∀ ps ∈ all, ∀ x ∈ ps, p x = true) :
    restrict p all = all := by
  have same : all.map (·.filter p) = all := by
    conv_rhs => rw [← List.map_id all]
    exact List.map_congr_left fun ps member => List.filter_eq_self.2 (kept ps member)
  rw [restrict, same, List.filter_eq_self]
  simpa using filled

theorem restrict_eq_nil (gone : ∀ ps ∈ all, ∀ x ∈ ps, p x = false) : restrict p all = [] := by
  rw [restrict, List.filter_eq_nil_iff]
  intro qs member
  obtain ⟨ps, held, rfl⟩ := List.mem_map.1 member
  have none : ps.filter p = [] := List.filter_eq_nil_iff.2 fun x inside => by simp [gone ps held x inside]
  simp [none]

theorem mem_restrict {qs : List ι} :
    qs ∈ restrict p all ↔ (∃ ps ∈ all, ps.filter p = qs) ∧ qs ≠ [] := by
  simp [restrict]

/-- An item that fails the condition makes no difference. -/
theorem Seated.restrict {accepts : List ι → Bool} {i : ι} {next : List (List ι)}
    (seated : Seated accepts i all next) (outside : p i = false) :
    restrict p next = restrict p all := by
  cases seated with
  | joins => simp [Options.restrict, outside]
  | starts => simp [Options.restrict, outside]

end Restriction

variable [LinearOrder ι]

/-- Each place of the input whose item is not empty is in one bucket. Buckets are not empty, list
their places in order, and are in the order of their first places. At each place, the buckets are
taken as they stood before it: its own bucket is the first of them that accepts the item, or a new
one if none does. -/
structure FirstMatch (o : Options R) (inputs : List ι) (item : ι → α × Nat)
    (all : List (List ι)) : Prop where
  complete : all.flatten.Perm (inputs.filter fun i => (item i).2 ≠ 0)
  filled : ∀ ps ∈ all, ps ≠ []
  ordered : ∀ ps ∈ all, ps.Pairwise (· < ·)
  started : all.Pairwise fun ps qs => ∀ p ∈ ps.head?, ∀ q ∈ qs.head?, p < q
  matched : ∀ i ∈ inputs, (item i).2 ≠ 0 → ∃ ps ∈ all, i ∈ ps ∧
    ps.filter (· < i) = ((restrict (· < i) all).find? (o.takesIn item i)).getD []

namespace FirstMatch

variable {o : Options R} {item : ι → α × Nat} {inputs : List ι} {all next : List (List ι)} {i : ι}

theorem mem_inputs (fits : o.FirstMatch inputs item all) {ps : List ι} (member : ps ∈ all)
    (inside : i ∈ ps) : i ∈ inputs ∧ (item i).2 ≠ 0 := by
  have held : i ∈ all.flatten := List.mem_flatten.2 ⟨ps, member, inside⟩
  simpa using fits.complete.mem_iff.1 held

protected theorem nil (o : Options R) (item : ι → α × Nat) : o.FirstMatch [] item [] where
  complete := .refl _
  filled := by simp
  ordered := by simp
  started := .nil
  matched := by simp

theorem concat_empty (fits : o.FirstMatch inputs item all) (empty : (item i).2 = 0) :
    o.FirstMatch (inputs ++ [i]) item all where
  complete := by simpa [List.filter_append, empty] using fits.complete
  filled := fits.filled
  ordered := fits.ordered
  started := fits.started
  matched := by
    intro j member some
    rcases List.mem_append.1 member with old | new
    · exact fits.matched j old some
    · rw [List.mem_singleton.1 new] at some
      exact absurd empty some

/-- The scan goes on as the definition says. -/
theorem concat (fits : o.FirstMatch inputs item all) (later : ∀ j ∈ inputs, j < i)
    (some : (item i).2 ≠ 0) (seated : Seated (o.takesIn item i) i all next) :
    o.FirstMatch (inputs ++ [i]) item next where
  complete := by
    refine seated.perm_flatten.trans ?_
    simpa [List.filter_append, some] using fits.complete.append_right [i]
  filled := by
    intro qs member
    rcases seated.from member with old | ⟨ps, _, rfl⟩ | rfl
    · exact fits.filled qs old
    · simp
    · simp
  ordered := by
    intro qs member
    rcases seated.from member with old | ⟨ps, old, rfl⟩ | rfl
    · exact fits.ordered qs old
    · refine List.pairwise_append.2 ⟨fits.ordered ps old, List.pairwise_singleton _ _, ?_⟩
      intro j inside k last
      rw [List.mem_singleton.1 last]
      exact later j (fits.mem_inputs old inside).1
    · exact List.pairwise_singleton _ _
  started := by
    have started := fits.started
    have filled := fits.filled
    cases seated with
    | @joins front ps back refused accepted =>
      -- the first place of the bucket stays
      have first : (ps ++ [i]).head? = ps.head? := by
        rw [List.head?_append_of_ne_nil]
        exact filled ps (by simp)
      rw [List.pairwise_append, List.pairwise_cons] at started ⊢
      simpa only [List.forall_mem_cons, first] using started
    | starts refused =>
      refine List.pairwise_append.2 ⟨started, List.pairwise_singleton _ _, ?_⟩
      intro ps held qs last p first q only
      rw [List.mem_singleton.1 last] at only
      obtain rfl : i = q := by simpa using only
      exact later p (fits.mem_inputs held (List.mem_of_mem_head? first)).1
  matched := by
    intro j member some
    rcases List.mem_append.1 member with old | new
    · have behind : ¬ i < j := (later j old).not_gt
      obtain ⟨ps, held, inside, first⟩ := fits.matched j old some
      obtain ⟨qs, kept, same⟩ := seated.grown held
      refine ⟨qs, kept, ?_, ?_⟩
      · rcases same with rfl | rfl
        · exact inside
        · exact List.mem_append_left _ inside
      · rw [seated.restrict (by simpa using behind), ← first]
        rcases same with rfl | rfl
        · rfl
        · simp [List.filter_append, behind]
    · obtain rfl := List.mem_singleton.1 new
      have before : ∀ ps ∈ all, ∀ x ∈ ps, decide (x < j) = true := fun ps held x inside =>
        decide_eq_true (later x (fits.mem_inputs held inside).1)
      refine ⟨_, seated.own, by simp, ?_⟩
      rw [seated.restrict (by simp), restrict_eq_self fits.filled before, List.filter_append]
      cases found : all.find? (o.takesIn item j) with
      | none => simp
      | some ps =>
        have held : ps ∈ all := List.mem_of_find?_eq_some found
        simpa using fun x inside => (later x (fits.mem_inputs held inside).1)

private theorem split_ascending {ps : List ι} (ascending : ps.Pairwise (· < ·)) (inside : i ∈ ps) :
    ∃ left right, ps = left ++ i :: right ∧ (∀ x ∈ left, x < i) ∧ ∀ x ∈ right, i < x := by
  obtain ⟨left, right, rfl⟩ := List.append_of_mem inside
  obtain ⟨_, behind, before⟩ := List.pairwise_append.1 ascending
  exact ⟨left, right, rfl, fun x earlier => before x earlier i List.mem_cons_self,
    (List.pairwise_cons.1 behind).1⟩

private theorem filter_le_eq {ps : List ι} (ascending : ps.Pairwise (· < ·)) (inside : i ∈ ps) :
    ps.filter (· ≤ i) = ps.filter (· < i) ++ [i] := by
  obtain ⟨left, right, rfl, less, more⟩ := split_ascending ascending inside
  have kept : left.filter (· < i) = left := List.filter_eq_self.2 fun x member => by simpa using less x member
  have also : left.filter (· ≤ i) = left :=
    List.filter_eq_self.2 fun x member => by simpa using (less x member).le
  have gone : right.filter (· < i) = [] :=
    List.filter_eq_nil_iff.2 fun x member => by simpa using (more x member).le
  have out : right.filter (· ≤ i) = [] :=
    List.filter_eq_nil_iff.2 fun x member => by simpa using more x member
  simp [kept, also, gone, out]

private theorem head?_of_first {ps : List ι} (ascending : ps.Pairwise (· < ·)) (inside : i ∈ ps)
    (first : ps.filter (· < i) = []) : ps.head? = some i := by
  obtain ⟨left, right, rfl, less, _⟩ := split_ascending ascending inside
  have none : left = [] := by
    rw [List.eq_nil_iff_forall_not_mem]
    intro x member
    have kept := List.filter_eq_nil_iff.1 first x (List.mem_append_left _ member)
    exact kept (decide_eq_true (less x member))
  rw [none]
  rfl

private theorem refused_of_find? {β : Type} {accepts : β → Bool} {front back : List β} {x : β}
    (found : (front ++ x :: back).find? accepts = some x) (absent : x ∉ front) :
    ∀ y ∈ front, accepts y = false := by
  intro y member
  rw [List.find?_append] at found
  cases earlier : front.find? accepts with
  | none => simpa using List.find?_eq_none.1 earlier y member
  | some z =>
    rw [earlier, Option.some_or, Option.some_inj] at found
    exact absurd (found ▸ List.mem_of_find?_eq_some earlier) absent

private theorem mem_iff_lt {done rest : List ι} {x : ι} (sorted : (done ++ i :: rest).Pairwise (· < ·))
    (member : x ∈ done ++ i :: rest) : x ∈ done ↔ x < i := by
  obtain ⟨_, behind, before⟩ := List.pairwise_append.1 sorted
  constructor
  · intro earlier
    exact before x earlier i List.mem_cons_self
  · intro less
    rcases List.mem_append.1 member with earlier | later
    · exact earlier
    · rcases List.mem_cons.1 later with rfl | later
      · exact absurd less (lt_irrefl x)
      · exact absurd less ((List.pairwise_cons.1 behind).1 x later).not_gt

private theorem head?_le {ps : List ι} (ascending : ps.Pairwise (· < ·)) (inside : i ∈ ps) :
    ∃ p ∈ ps.head?, p ≤ i := by
  cases ps with
  | nil => cases inside
  | cons p rest =>
    refine ⟨p, rfl, ?_⟩
    rcases List.mem_cons.1 inside with rfl | later
    · exact le_rfl
    · exact ((List.pairwise_cons.1 ascending).1 i later).le

/-- The buckets as they stand behind a place follow from those before it. -/
theorem step (fits : o.FirstMatch inputs item all) (distinct : inputs.Nodup) (member : i ∈ inputs)
    (some : (item i).2 ≠ 0) :
    Seated (o.takesIn item i) i (restrict (· < i) all) (restrict (· ≤ i) all) := by
  obtain ⟨ps, held, inside, own⟩ := fits.matched i member some
  have once : (all.flatMap id).Nodup := by
    rw [List.flatMap_id, fits.complete.nodup_iff]
    exact distinct.filter _
  have joined := filter_le_eq (fits.ordered ps held) inside
  obtain ⟨front, back, rfl⟩ := List.append_of_mem held
  have elsewhere : ∀ qs ∈ front ++ back, ∀ x ∈ qs, x ∉ ps := by
    intro qs other x first second
    exact (only_of_nodup_flatMap once second).2 qs other first
  -- only the item's own bucket changes with it
  have same {qss : List (List ι)} (fewer : qss ⊆ front ++ back) :
      restrict (· ≤ i) qss = restrict (· < i) qss := by
    refine restrict_congr fun qs other x within => ?_
    have different : x ≠ i := fun equal => elsewhere qs (fewer other) x within (equal ▸ inside)
    simp [le_iff_lt_or_eq, different]
  have after : restrict (· ≤ i) (front ++ ps :: back) =
      restrict (· < i) front ++ (ps.filter (· < i) ++ [i]) :: restrict (· < i) back := by
    rw [restrict_append, restrict_cons, joined, if_neg (by simp), same (List.subset_append_left _ _),
      same (List.subset_append_right _ _)]
  rw [after]
  cases found : (restrict (· < i) (front ++ ps :: back)).find? (o.takesIn item i) with
  | none =>
    rw [found] at own
    have first : ps.filter (· < i) = [] := own
    have head := head?_of_first (fits.ordered ps held) inside first
    have later : restrict (· < i) back = [] := by
      refine restrict_eq_nil fun qs behind x within => decide_eq_false ?_
      have ordered := fits.ordered qs (List.mem_append_right _ (List.mem_cons_of_mem _ behind))
      obtain ⟨q, begins, low⟩ := head?_le ordered within
      have starts := (List.pairwise_cons.1 (List.pairwise_append.1 fits.started).2.1).1 qs behind
      exact ((starts i head q begins).trans_le low).not_gt
    have before : restrict (· < i) (front ++ ps :: back) = restrict (· < i) front := by
      rw [restrict_append, restrict_cons, if_pos first, later, List.append_nil]
    rw [before] at found ⊢
    rw [first, later]
    exact .starts fun qs member => by simpa using List.find?_eq_none.1 found qs member
  | some qs =>
    rw [found] at own
    have own : ps.filter (· < i) = qs := own
    have filled : qs ≠ [] := (mem_restrict.1 (List.mem_of_find?_eq_some found)).2
    have before : restrict (· < i) (front ++ ps :: back) =
        restrict (· < i) front ++ qs :: restrict (· < i) back := by
      rw [restrict_append, restrict_cons, own, if_neg filled]
    rw [before] at found ⊢
    rw [own]
    refine .joins (refused_of_find? found fun member => ?_) (List.find?_some found)
    -- a bucket in front would share its places with the item's own
    obtain ⟨⟨rs, outer, cut⟩, _⟩ := mem_restrict.1 member
    obtain ⟨x, within⟩ := List.exists_mem_of_ne_nil qs filled
    have shared : x ∈ ps := (List.mem_filter.1 (own ▸ within)).1
    exact elsewhere rs (List.mem_append_left _ outer) x (List.mem_filter.1 (cut ▸ within)).1 shared

/-- Whatever places fit, the scan has come to their buckets as they stand behind each prefix. -/
theorem buckets_prefix (fits : o.FirstMatch inputs item all) (sorted : inputs.Pairwise (· < ·))
    (word : ∀ i ∈ inputs, (item i).2 < UInt64.size) {done : List ι} (begun : done <+: inputs) :
    o.buckets (done.map item) = (restrict (· ∈ done) all).map (Bucket.ofPlaces item) := by
  induction done using List.reverseRecOn with
  | nil =>
    rw [restrict_eq_nil fun _ _ x _ => decide_eq_false List.not_mem_nil]
    rfl
  | append_singleton done i ih =>
    obtain ⟨rest, split⟩ := begun
    rw [List.append_assoc, List.singleton_append] at split
    have ih := ih ⟨i :: rest, split⟩
    have member : i ∈ inputs := by simp [← split]
    rw [← split] at sorted
    have place : ∀ ps ∈ all, ∀ x ∈ ps, (x ∈ done ↔ x < i) := fun ps held x inside =>
      mem_iff_lt sorted (split ▸ (fits.mem_inputs held inside).1)
    have below : restrict (· ∈ done) all = restrict (· < i) all := by
      refine restrict_congr fun ps held x inside => decide_eq_decide.2 ?_
      exact place ps held x inside
    have upTo : restrict (· ∈ done ++ [i]) all = restrict (· ≤ i) all := by
      refine restrict_congr fun ps held x inside => decide_eq_decide.2 ?_
      rw [List.mem_append, List.mem_singleton, place ps held x inside, le_iff_lt_or_eq]
    rw [List.map_append, List.map_singleton, buckets_concat, ih, below, upTo]
    split
    · next empty =>
      congr 1
      refine restrict_congr fun ps held x inside => decide_eq_decide.2 ?_
      have different : x ≠ i := fun same => (fits.mem_inputs held inside).2 (same ▸ empty)
      rw [le_iff_lt_or_eq, or_iff_left different]
    · next some =>
      have distinct : inputs.Nodup := split ▸ sorted.imp ne_of_lt
      exact (fits.step distinct member some).place (word i member)

theorem buckets_eq (fits : o.FirstMatch inputs item all) (sorted : inputs.Pairwise (· < ·))
    (word : ∀ i ∈ inputs, (item i).2 < UInt64.size) :
    o.buckets (inputs.map item) = all.map (Bucket.ofPlaces item) := by
  have whole : restrict (· ∈ inputs) all = all :=
    restrict_eq_self fits.filled fun ps held x inside =>
      decide_eq_true (fits.mem_inputs held inside).1
  rw [fits.buckets_prefix sorted word (List.prefix_refl inputs), whole]

end FirstMatch

theorem exists_firstMatch (o : Options R) {item : ι → α × Nat} {inputs : List ι}
    (sorted : inputs.Pairwise (· < ·)) (word : ∀ i ∈ inputs, (item i).2 < UInt64.size) :
    ∃ all, o.FirstMatch inputs item all ∧
      o.buckets (inputs.map item) = all.map (Bucket.ofPlaces item) := by
  induction inputs using List.reverseRecOn with
  | nil => exact ⟨[], .nil o item, rfl⟩
  | append_singleton inputs i ih =>
    obtain ⟨before, _, later⟩ := List.pairwise_append.1 sorted
    obtain ⟨all, fits, same⟩ := ih before fun j member => word j (List.mem_append_left _ member)
    rw [List.map_append, List.map_singleton, buckets_concat, same]
    by_cases empty : (item i).2 = 0
    · exact ⟨all, fits.concat_empty empty, if_pos empty⟩
    · obtain ⟨next, seated⟩ := exists_seated (o.takesIn item i) i all
      refine ⟨next, fits.concat (fun j member => later j member i List.mem_cons_self) empty seated, ?_⟩
      rw [if_neg empty]
      exact seated.place (word i (List.mem_append_right _ (List.mem_singleton_self i)))

/-- A bucket is not empty, and its total is the sum of the sizes as far as it can be kept. -/
theorem of_mem_buckets {o : Options R} {items : List (α × Nat)}
    (word : ∀ m ∈ items, m.2 < UInt64.size) {b : Bucket α} (member : b ∈ o.buckets items) :
    b.members ≠ [] ∧ b.total = min (sumBy (·.2) b.members) Bucket.maxTotal := by
  have sizes : ∀ i ∈ List.finRange items.length, (items.get i).2 < UInt64.size :=
    fun i _ => word _ (List.get_mem items i)
  obtain ⟨all, fits, same⟩ := o.exists_firstMatch (List.pairwise_lt_finRange _) sizes
  rw [List.map_get_finRange] at same
  rw [same] at member
  obtain ⟨ps, held, rfl⟩ := List.mem_map.1 member
  exact ⟨by simpa [Bucket.ofPlaces] using fits.filled ps held, rfl⟩

/-- The buckets of a list of items are those of the places that fit the definition by first match;
no other buckets fit it. Each item that is not empty is in them as often as in the list, and reading
the items and the sizes of a bucket separately gives its members. -/
theorem buckets_eq_iff_firstMatch (o : Options R) {items : List (α × Nat)}
    (word : ∀ m ∈ items, m.2 < UInt64.size) :
    (∀ bs : List (Bucket α), o.buckets items = bs ↔
      ∃ all : List (List (Fin items.length)),
        o.FirstMatch (List.finRange items.length) items.get all ∧
          bs = all.map (Bucket.ofPlaces items.get)) ∧
    (membersOf (o.buckets items)).Perm (items.filter (·.2 ≠ 0)) ∧
    ∀ b ∈ o.buckets items, b.items.length = b.length ∧ b.sizes.length = b.length ∧
      b.items.zip b.sizes = b.members := by
  have sorted : (List.finRange items.length).Pairwise (· < ·) := List.pairwise_lt_finRange _
  have sizes : ∀ i ∈ List.finRange items.length, (items.get i).2 < UInt64.size :=
    fun i _ => word _ (List.get_mem items i)
  have whole : (List.finRange items.length).map items.get = items := List.map_get_finRange items
  refine ⟨fun bs => ⟨?_, ?_⟩, o.perm_membersOf_buckets items, ?_⟩
  · rintro rfl
    obtain ⟨all, fits, same⟩ := o.exists_firstMatch sorted sizes
    rw [whole] at same
    exact ⟨all, fits, same⟩
  · rintro ⟨all, fits, rfl⟩
    have same := fits.buckets_eq sorted sizes
    rwa [whole] at same
  · intro b _
    simp [Bucket.items, Bucket.sizes, Bucket.length, List.zip_map']

/-- The last item would fit both buckets as they are, and an empty one is in none. -/
theorem first_of_two_buckets :
    let o : Options Float := { low := 0.5, high := 1.5, minSize := 0 }
    let items := [("a", 10), ("b", 0), ("c", 40), ("d", 20), ("e", 15)]
    (∀ m ∈ items, m.2 < UInt64.size) ∧
    ∃ all : List (List (Fin items.length)),
      o.FirstMatch (List.finRange items.length) items.get all ∧
        all.map (·.map items.get) = [[("a", 10), ("e", 15)], [("c", 40), ("d", 20)]] := by
  intro o items
  have word : ∀ m ∈ items, m.2 < UInt64.size := by decide
  obtain ⟨all, fits, same⟩ := ((buckets_eq_iff_firstMatch o word).1 (o.buckets items)).1 rfl
  have members : (o.buckets items).map (·.members) =
      [[("a", 10), ("e", 15)], [("c", 40), ("d", 20)]] := by decide +kernel
  refine ⟨word, all, fits, ?_⟩
  rw [← members, same, List.map_map]
  rfl

end Options

end TieredCompaction
