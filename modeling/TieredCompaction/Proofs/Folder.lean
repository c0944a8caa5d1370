import Mathlib.Data.List.Nodup
import Mathlib.Data.List.Perm.Basic
import TieredCompaction.Folder
/-!
A folder is a finite map from names, and a tree of folders is one from places. A path depends only
on which places are folders: it leads to the same place as long as none of them gets lost.
-/
namespace TieredCompaction

namespace Folder

variable {d d' : Folder} {name other : String} {node old new : Node}

/-- The names of the entries. -/
def names (d : Folder) : List String := d.map (·.1)

/-- What the entries hold, without their names. -/
def contents (d : Folder) : List Node := d.map (·.2)

@[simp]
theorem get?_nil : get? [] name = none := rfl

@[simp]
theorem get?_cons (key : String) (node : Node) (d : Folder) (name : String) :
    get? ((key, node) :: d) name = if key = name then some node else d.get? name := by
  unfold get?
  by_cases same : key = name
  · subst key
    simp
  · have other : (name == key) = false := beq_false_of_ne (Ne.symm same)
    simp only [List.lookup_cons, other, if_neg same]

theorem has_iff : d.has name = true ↔ ∃ node, d.get? name = some node :=
  Option.isSome_iff_exists

theorem has_eq_false : d.has name = false ↔ d.get? name = none :=
  Option.isSome_eq_false_iff.trans Option.isNone_iff_eq_none

theorem mem_names : name ∈ d.names ↔ d.has name = true := by
  induction d with
  | nil => simp [names, has]
  | cons entry rest ih =>
    obtain ⟨key, node⟩ := entry
    rw [names, List.map_cons, List.mem_cons, ← names, ih, has, has, get?_cons]
    by_cases same : key = name
    · simp [same]
    · simp [same, Ne.symm same]

theorem get?_put (d : Folder) (name : String) (node : Node) (other : String) :
    (d.put name node).get? other = if name = other then some node else d.get? other := by
  induction d with
  | nil => simp [put]
  | cons entry rest ih =>
    obtain ⟨key, here⟩ := entry
    rw [put]
    split
    case isTrue same =>
      subst key
      simp only [get?_cons]
      split <;> rfl
    case isFalse different =>
      rw [get?_cons, get?_cons, ih]
      by_cases reached : key = other
      · have passed : name ≠ other := fun same => different (reached.trans same.symm)
        rw [if_pos reached, if_pos reached, if_neg passed]
      · rw [if_neg reached, if_neg reached]

@[simp]
theorem get?_put_self : (d.put name node).get? name = some node := by
  rw [get?_put, if_pos rfl]

theorem get?_put_of_ne (different : other ≠ name) :
    (d.put name node).get? other = d.get? other := by
  rw [get?_put, if_neg (Ne.symm different)]

@[simp]
theorem put_put : (d.put name old).put name new = d.put name new := by
  induction d with
  | nil => simp [put]
  | cons entry rest ih =>
    obtain ⟨key, here⟩ := entry
    by_cases same : key = name
    · simp [put, same]
    · simp [put, same, ih]

theorem put_same (found : d.get? name = some node) : d.put name node = d := by
  induction d with
  | nil => cases found
  | cons entry rest ih =>
    obtain ⟨key, here⟩ := entry
    rw [get?_cons] at found
    rw [put]
    split at found
    case isTrue same =>
      cases found
      rw [if_pos same]
    case isFalse different => rw [if_neg different, ih found]

theorem put_absent (absent : d.get? name = none) : d.put name node = d ++ [(name, node)] := by
  induction d with
  | nil => rfl
  | cons entry rest ih =>
    obtain ⟨key, here⟩ := entry
    rw [get?_cons] at absent
    split at absent
    case isTrue => cases absent
    case isFalse different => rw [put, if_neg different, ih absent, List.cons_append]

theorem names_put_absent (absent : d.get? name = none) :
    (d.put name node).names = d.names ++ [name] := by
  rw [put_absent absent, names, List.map_append]
  rfl

theorem contents_put_absent (absent : d.get? name = none) :
    (d.put name node).contents = d.contents ++ [node] := by
  rw [put_absent absent, contents, List.map_append]
  rfl

theorem nodup_put_absent (nodup : d.names.Nodup) (absent : d.get? name = none) :
    (d.put name node).names.Nodup := by
  have fresh : name ∉ d.names := fun named =>
    Bool.false_ne_true ((has_eq_false.mpr absent).symm.trans (mem_names.mp named))
  rw [names_put_absent absent, ← List.concat_eq_append]
  exact nodup.concat fresh

theorem get?_erase (d : Folder) (name other : String) :
    (d.erase name).get? other = if name = other then none else d.get? other := by
  induction d with
  | nil => simp [erase]
  | cons entry rest ih =>
    obtain ⟨key, here⟩ := entry
    by_cases same : key = name
    · subst key
      rw [erase, List.filter_cons_of_neg (by simp), ← erase, ih, get?_cons]
      split <;> rfl
    · rw [erase, List.filter_cons_of_pos (by simpa using same), ← erase, get?_cons, get?_cons, ih]
      by_cases reached : key = other
      · have passed : name ≠ other := fun equal => same (reached.trans equal.symm)
        rw [if_pos reached, if_pos reached, if_neg passed]
      · rw [if_neg reached, if_neg reached]

theorem erase_absent (absent : d.get? name = none) : d.erase name = d := by
  refine List.filter_eq_self.mpr fun entry member => bne_iff_ne.mpr fun same => ?_
  have named : name ∈ d.names := List.mem_map.mpr ⟨entry, member, same⟩
  obtain ⟨node, found⟩ := has_iff.mp (mem_names.mp named)
  exact Option.some_ne_none node (found.symm.trans absent)

/-- An entry can be taken out of a folder with all others kept. -/
theorem perm_erase (nodup : d.names.Nodup) (found : d.get? name = some node) :
    d.Perm ((name, node) :: d.erase name) := by
  induction d with
  | nil => cases found
  | cons entry rest ih =>
    obtain ⟨key, here⟩ := entry
    obtain ⟨fresh, nodup⟩ := List.nodup_cons.mp nodup
    rw [get?_cons] at found
    split at found
    case isTrue same =>
      cases found
      subst key
      have absent : get? rest name = none :=
        has_eq_false.mp (Bool.eq_false_iff.mpr fun present => fresh (mem_names.mpr present))
      rw [erase, List.filter_cons_of_neg (by simp), ← erase, erase_absent absent]
    case isFalse different =>
      rw [erase, List.filter_cons_of_pos (by simpa using different), ← erase]
      exact ((ih nodup found).cons _).trans (List.Perm.swap ..)

theorem contents_erase (nodup : d.names.Nodup) (found : d.get? name = some node) :
    d.contents.Perm (node :: (d.erase name).contents) := by
  unfold contents
  exact (perm_erase nodup found).map (·.2)

end Folder

namespace Node

variable {root root' : Node} {entries d d' : Folder} {place : Place} {name : String}
  {node old new : Node}

theorem get?_cons (entries : Folder) (name : String) (rest : Place) :
    (folder entries).get? (name :: rest) = (Folder.get? entries name).bind (·.get? rest) := by
  rw [Node.get?]
  cases Folder.get? entries name <;> rfl

theorem get?_append (root : Node) (place rest : Place) :
    root.get? (place ++ rest) = (root.get? place).bind (·.get? rest) := by
  induction place generalizing root with
  | nil => rfl
  | cons name inner ih =>
    cases root with
    | file text => rfl
    | folder entries =>
      rw [List.cons_append, get?_cons, get?_cons, Option.bind_assoc]
      exact Option.bind_congr fun node _ => ih node

@[simp]
theorem set_nil (root new : Node) : root.set [] new = new := by
  cases root <;> rw [Node.set]

theorem set_cons (found : Folder.get? entries name = some node) (rest : Place) (new : Node) :
    (folder entries).set (name :: rest) new =
      folder (Folder.put entries name (node.set rest new)) := by
  cases rest with
  | nil => rw [set_nil, Node.set]
  | cons key inner =>
    rw [Node.set, found]
    exact List.cons_ne_nil key inner

/-- What lies behind a name lies in a folder that has an entry of that name. -/
theorem get?_cons_eq_some {rest : Place} (found : root.get? (name :: rest) = some node) :
    ∃ entries inner, root = folder entries ∧ Folder.get? entries name = some inner ∧
      inner.get? rest = some node := by
  cases root with
  | file text => cases found
  | folder entries =>
    rw [get?_cons] at found
    obtain ⟨inner, here, below⟩ := Option.bind_eq_some_iff.mp found
    exact ⟨entries, inner, rfl, here, below⟩

theorem get?_set (found : root.get? place = some old) :
    (root.set place new).get? place = some new := by
  induction place generalizing root with
  | nil => rw [set_nil, Node.get?]
  | cons name rest ih =>
    obtain ⟨entries, inner, rfl, here, below⟩ := get?_cons_eq_some found
    rw [set_cons here, get?_cons, Folder.get?_put_self]
    exact ih below

theorem set_set (found : root.get? place = some old) (first second : Node) :
    (root.set place first).set place second = root.set place second := by
  induction place generalizing root with
  | nil => rw [set_nil, set_nil]
  | cons name rest ih =>
    obtain ⟨entries, inner, rfl, here, below⟩ := get?_cons_eq_some found
    rw [set_cons here, set_cons Folder.get?_put_self, set_cons here, Folder.put_put, ih below]

theorem set_same (found : root.get? place = some old) : root.set place old = root := by
  induction place generalizing root with
  | nil => rw [set_nil, Option.some.inj found]
  | cons name rest ih =>
    obtain ⟨entries, inner, rfl, here, below⟩ := get?_cons_eq_some found
    rw [set_cons here, ih below, Folder.put_same here]

/-- Every place that is a folder in the one tree is a folder in the other. -/
def Wider (root root' : Node) : Prop :=
  ∀ place entries, root.get? place = some (folder entries) →
    ∃ others, root'.get? place = some (folder others)

/-- A folder may be replaced by one that has the same folders in it. -/
theorem wider_set (found : root.get? place = some (folder d))
    (kept : ∀ name entries, d.get? name = some (folder entries) →
      d'.get? name = some (folder entries)) :
    Wider root (root.set place (folder d')) := by
  induction place generalizing root with
  | nil =>
    cases Option.some.inj found
    intro place entries there
    cases place with
    | nil => exact ⟨d', rfl⟩
    | cons name rest =>
      rw [get?_cons] at there
      obtain ⟨inner, here, below⟩ := Option.bind_eq_some_iff.mp there
      -- Something with a folder at a place in it is a folder.
      cases inner with
      | file text => cases rest <;> cases below
      | folder others =>
        refine ⟨entries, ?_⟩
        rw [Node.set, get?_cons, kept name others here]
        exact below
  | cons name rest ih =>
    obtain ⟨outer, inner, rfl, here, below⟩ := get?_cons_eq_some found
    rw [set_cons here]
    intro place entries there
    cases place with
    | nil => exact ⟨_, rfl⟩
    | cons key further =>
      rw [get?_cons] at there ⊢
      by_cases same : key = name
      · subst key
        rw [here] at there
        rw [Folder.get?_put_self]
        exact ih below further entries there
      · rw [Folder.get?_put_of_ne same]
        exact ⟨entries, there⟩

/-- A step starts from a folder. It stays there, or leads to the folder around it, or to an entry. -/
theorem step_eq_ok {piece : String} {start next : Place} :
    root.step start piece = .ok next ↔
      ∃ entries, root.get? start = some (folder entries) ∧
        if piece = "" ∨ piece = "." then next = start
        else if piece = ".." then next = start.dropLast
        else piece.utf8ByteSize ≤ maxName ∧ Folder.has entries piece = true ∧
          next = start ++ [piece] := by
  unfold step
  constructor
  · intro stepped
    split at stepped
    case h_1 entries here =>
      refine ⟨entries, here, ?_⟩
      split_ifs at stepped ⊢ with stay up long present <;> cases stepped
      · rfl
      · rfl
      · exact ⟨Nat.le_of_not_lt long, present, rfl⟩
    case h_2 => cases stepped
    case h_3 => cases stepped
  · rintro ⟨entries, here, stepped⟩
    rw [here]
    dsimp only
    split_ifs at stepped ⊢ with stay up long present
    · rw [stepped]
    · rw [stepped]
    · exact absurd stepped.1 (Nat.not_le_of_lt long)
    · rw [stepped.2.2]
    · exact absurd stepped.2.1 present

/-- A walk ends at a folder only if it starts from one. -/
theorem folder_of_walk {pieces : List String} {start : Place}
    (walked : pieces.foldlM root.step start = .ok place)
    (found : root.get? place = some (folder d)) :
    ∃ entries, root.get? start = some (folder entries) := by
  cases pieces with
  | nil =>
    cases walked
    exact ⟨d, found⟩
  | cons piece rest =>
    rw [List.foldlM_cons] at walked
    cases stepped : root.step start piece with
    | error cause =>
      rw [stepped] at walked
      cases walked
    | ok next =>
      obtain ⟨entries, here, -⟩ := step_eq_ok.mp stepped
      exact ⟨entries, here⟩

/-- A step to a folder is the same where that is a folder too, and the one that it starts from. -/
theorem step_wider {piece : String} {start next : Place} (wider : Wider root root')
    (stepped : root.step start piece = .ok next)
    (found : root.get? next = some (folder d)) : root'.step start piece = .ok next := by
  obtain ⟨entries, here, leads⟩ := step_eq_ok.mp stepped
  obtain ⟨others, there⟩ := wider start entries here
  refine step_eq_ok.mpr ⟨others, there, ?_⟩
  split_ifs at leads ⊢
  · exact leads
  · exact leads
  · obtain ⟨short, -, rfl⟩ := leads
    obtain ⟨inner, below⟩ := wider _ d found
    rw [get?_append, there, Option.bind_some, get?_cons] at below
    obtain ⟨node, entry, -⟩ := Option.bind_eq_some_iff.mp below
    exact ⟨short, Folder.has_iff.mpr ⟨node, entry⟩, rfl⟩

theorem walk_wider (wider : Wider root root') {pieces : List String} {start : Place}
    (walked : pieces.foldlM root.step start = .ok place)
    (found : root.get? place = some (folder d)) :
    pieces.foldlM root'.step start = .ok place := by
  induction pieces generalizing start with
  | nil => exact walked
  | cons piece rest ih =>
    rw [List.foldlM_cons] at walked ⊢
    cases stepped : root.step start piece with
    | error cause =>
      rw [stepped] at walked
      cases walked
    | ok next =>
      rw [stepped] at walked
      obtain ⟨entries, here⟩ := folder_of_walk walked found
      rw [step_wider wider stepped here]
      exact ih walked

/-- A path leads to the same folder in a tree with all folders and more. -/
theorem locate_wider {path : String} (wider : Wider root root')
    (located : root.locate path = .ok place) (found : root.get? place = some (folder d)) :
    root'.locate path = .ok place := by
  unfold locate at located ⊢
  split at located
  case h_1 => cases located
  case h_2 => exact walk_wider wider located found

/-- What it means that a folder is found: the path has no fault, it leads to the place, and there is
the folder. -/
theorem folderFor_eq_ok {path : String} :
    root.folderFor path name = .ok (place, d) ↔
      pathFault (pathIn path name) = none ∧ root.locate path = .ok place ∧
        root.get? place = some (folder d) := by
  unfold folderFor
  cases pathFault (pathIn path name) with
  | some cause => simp [bind, Except.bind]
  | none =>
    cases root.locate path with
    | error cause => simp [bind, Except.bind]
    | ok there =>
      simp only [bind, Except.bind, true_and, Except.ok.injEq]
      constructor
      · intro found
        split at found
        case h_1 entries here =>
          cases found
          exact ⟨rfl, here⟩
        case h_2 => cases found
        case h_3 => cases found
      · rintro ⟨rfl, here⟩
        rw [here]

end Node

end TieredCompaction
