import TieredCompaction.Proofs.TableList.Layout
import TieredCompaction.Proofs.Text.Lines
/-!
The tables of a list. Each line that lists a table gives one, with its number among these lines as
its ID; lines that are refused are told by their number among all lines; and the layout of a list is
ignored, but nothing else is. A plan is made of these tables (`planFor_eq`).
-/
namespace TieredCompaction

variable {R : Type} [Quantity R]

/-- Listed tables stand on the shelf in the order of their rows. -/
theorem Plan.shelve_eq (given : R → GivenRate R) (now : Int) (rows : List (TableList.Row R)) :
    Plan.shelve given now rows =
      ({ holdings := (rows.map fun row =>
          { meter := (Meter.fresh now).restore (given row.rate) (given row.rate) now
            retired := false }).toArray },
        rows.mapIdx fun i row => { id := i, size := row.size, place := i }) := by
  induction rows using List.reverseRecOn with
  | nil => rfl
  | append_singleton rows row ih =>
    rw [shelve, List.foldl_append, ← shelve, ih]
    simp [Shelf.add, List.mapIdx_append]

/-- Sorting the tables before a plan is made of them changes nothing. -/
theorem Plan.make_sortBy (o : Options R) (t : Thresholds) (shelf : Shelf R) (now : Int)
    (tables : List Table) :
    Plan.make o t shelf now (sortBy Table.sizeLe tables) = Plan.make o t shelf now tables := by
  have sorted := pairwise_sortBy Table.sizeLe_trans Table.sizeLe_total tables
  simp only [make, sortBy_eq_self sorted]

/-- Sorted tables with IDs of their own are strictly sorted. -/
theorem Table.strict_of_sorted {ts : List Table} (sorted : ts.Pairwise (Table.sizeLe · ·))
    (distinct : (ts.map (·.id)).Nodup) :
    ts.Pairwise fun t u => t.size < u.size ∨ t.size = u.size ∧ t.id < u.id := by
  refine (sorted.and (List.pairwise_map.1 distinct)).imp fun ⟨before, apart⟩ => ?_
  rw [Table.sizeLe_iff] at before
  omega

namespace TableList

/-- The tables of lines, put on a shelf and ordered by size and ID: those that the program makes a plan
of (`planFor_eq`). -/
def tables (w : Words R) (given : R → GivenRate R) (now : Int) (lines : List (Option (List Char))) :
    Except ReadError (Shelf R × List Table) :=
  (read w lines).map fun rows =>
    let (shelf, tables) := Plan.shelve given now rows
    (shelf, sortBy Table.sizeLe tables)

/-- A table has the size that is listed, and on the shelf a meter restored to the rate. -/
def Holds (w : Words R) (given : R → GivenRate R) (now : Int) (shelf : Shelf R) (l : Listed)
    (t : Table) : Prop :=
  ∃ row, l.Reads w row ∧ t.size = row.size ∧
    shelf.meter? t = some ((Meter.fresh now).restore (given row.rate) (given row.rate) now)

/-- One table for each that is listed. The IDs count from zero in the order of the list, and the
tables are ordered by size and ID. -/
structure Tabled (w : Words R) (given : R → GivenRate R) (now : Int) (listing : List Listed)
    (shelf : Shelf R) (ts : List Table) : Prop where
  made : ∃ made, made.map (·.id) = List.range listing.length ∧
    List.Forall₂ (Holds w given now shelf) listing made ∧ ts.Perm made
  sorted : ts.Pairwise fun t u => t.size < u.size ∨ t.size = u.size ∧ t.id < u.id

variable {w : Words R} {given : R → GivenRate R} {now : Int}

theorem tabled_shelve {listing : List Listed} {rows : List (Row R)}
    (read : List.Forall₂ (Listed.Reads w) listing rows) :
    Tabled w given now listing (Plan.shelve given now rows).1
      (sortBy Table.sizeLe (Plan.shelve given now rows).2) := by
  have shelved := Plan.shelved_shelve given now rows
  have perm := perm_sortBy Table.sizeLe (Plan.shelve given now rows).2
  constructor
  case made =>
    refine ⟨_, read.length_eq ▸ shelved.ids, ?_, perm⟩
    rw [Plan.shelve_eq, List.forall₂_iff_get]
    refine ⟨by simpa using read.length_eq, fun i inside _ => ?_⟩
    have within : i < rows.length := read.length_eq ▸ inside
    refine ⟨rows[i], (List.forall₂_iff_get.1 read).2 i inside within, by simp, ?_⟩
    simp [Shelf.meter?, within]
  case sorted =>
    refine Table.strict_of_sorted (pairwise_sortBy Table.sizeLe_trans Table.sizeLe_total _) ?_
    rw [(perm.map _).nodup_iff, shelved.ids]
    exact List.nodup_range

theorem tables_eq_ok {lines : List (List Char)} {shelf : Shelf R} {ts : List Table} :
    tables w given now (lines.map some) = .ok (shelf, ts) ↔
      ∃ rows, List.Forall₂ (Listed.Reads w) (lines.filterMap listed?) rows ∧
        (Plan.shelve given now rows).1 = shelf ∧
        sortBy Table.sizeLe (Plan.shelve given now rows).2 = ts := by
  simp only [tables, ← read_eq_ok]
  cases read w (lines.map some) <;> simp [Except.map]

theorem tables_eq_error {lines : List (List Char)} {e : ReadError} :
    tables w given now (lines.map some) = .error e ↔ Refused w 1 lines e := by
  rw [← read_eq_error, tables]
  cases read w (lines.map some) <;> simp [Except.map]

theorem mapError_tables {lines others : List (List Char)} (relaid : Relaid lines others) :
    (tables w given now (lines.map some)).mapError ReadError.cause? =
      (tables w given now (others.map some)).mapError ReadError.cause? := by
  rw [tables, tables, mapError_map, mapError_map, mapError_read_congr w relaid.listing]

/-- A plan is made of the tables of a list, or tells why there are none. -/
theorem planFor_eq (o : Options Float) (t : Thresholds) (clock : Clock) (bytes : ByteArray) :
    CommandLine.planFor o t clock (.ok bytes) =
      match tables .standard GivenRate.ofFloat clock.instant (Text.byteLines bytes) with
      | .error e => .failed ("Invalid table list: " ++ e.message)
      | .ok (shelf, ts) => { output := (Plan.make o t shelf clock.instant ts).lines } := by
  rw [CommandLine.planFor, CommandLine.readRows, tables]
  cases read .standard (Text.byteLines bytes) with
  | error e => rfl
  | ok rows => simp only [Except.map, Plan.make_sortBy]

/-- For every text, and whatever words are sizes and rates: it has tables if and only if on each line
that has more than white space before a comment (`Text.before_eq_iff`) the first word is a size and
the second one, if there is one, a rate. Then there is one table for each of these lines, with IDs from
zero in their order, and the tables are strictly ordered by size and ID. Otherwise the first line that is
refused is told by its number among all lines, counted from one. Texts that differ by their layout only
have the same tables or are refused for the same reason, and only such texts are read alike whatever
words are sizes and rates. -/
theorem tables_of_text (w : Words R) (given : R → GivenRate R) (now : Int) (text : String) :
    let lines := Text.lines text.toList
    let result := tables w given now (Text.byteLines text.toUTF8)
    ((∃ shelf ts, result = .ok (shelf, ts)) ↔ ∀ line ∈ lines, Fine w line) ∧
    (∀ shelf ts, result = .ok (shelf, ts) →
      Tabled w given now (lines.filterMap listed?) shelf ts) ∧
    (∀ e, result = .error e ↔
      ∃ above line below cause, lines = above ++ line :: below ∧ FirstFault w above line cause ∧
        e = .line (above.length + 1) cause ∧
        e.message = s!"line {above.length + 1}: {cause.message}") ∧
    ∀ other : String,
      (Relaid lines (Text.lines other.toList) →
        result.mapError ReadError.cause? =
          (tables w given now (Text.byteLines other.toUTF8)).mapError ReadError.cause?) ∧
      ((∀ (S : Type) (v : Words S), (read v (Text.byteLines text.toUTF8)).toOption =
          (read v (Text.byteLines other.toUTF8)).toOption) →
        Relaid lines (Text.lines other.toList)) := by
  intro lines result
  simp only [result, Text.byteLines_toUTF8]
  refine ⟨?_, ?_, ?_, fun other => ⟨mapError_tables, relaid_iff_read.2⟩⟩
  · simp only [tables_eq_ok]
    rw [← exists_read_iff]
    simp only [read_eq_ok]
    exact ⟨fun ⟨_, _, rows, read, _⟩ => ⟨rows, read⟩,
      fun ⟨rows, read⟩ => ⟨_, _, rows, read, rfl, rfl⟩⟩
  · intro shelf ts made
    obtain ⟨rows, read, rfl, rfl⟩ := tables_eq_ok.1 made
    exact tabled_shelve read
  · intro e
    simp only [tables_eq_error, Refused, Nat.add_comm 1]
    constructor
    · rintro ⟨above, line, below, cause, split, first, rfl⟩
      exact ⟨above, line, below, cause, split, first, rfl, rfl⟩
    · rintro ⟨above, line, below, cause, split, first, rfl, -⟩
      exact ⟨above, line, below, cause, split, first, rfl⟩

example :
    ((tables .standard GivenRate.ofFloat 0 (Text.byteLines "12\n# hot\n\n10 5\n12 1 x\r\n".toUTF8)).map
      fun (_, ts) => ts.map fun t => (t.size, t.id)) = .ok [(10, 1), (12, 0), (12, 2)] := by
  rfl

example :
    (tables .standard GivenRate.ofFloat 0 (Text.byteLines "12\n# hot\n\nten\n".toUTF8)).mapError
      ReadError.message = .error "line 4: invalid digit found in string" := by
  rfl

end TableList

end TieredCompaction
