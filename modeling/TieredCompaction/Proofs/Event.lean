import TieredCompaction.Event
import TieredCompaction.Proofs.Text.Lines
import TieredCompaction.Proofs.Calendar
import TieredCompaction.Proofs.Journal
/-!
The text of an event tells the event, whatever the names in it are, and takes one line of a log.
-/
namespace TieredCompaction

open Text (Json)

theorem Descriptor.toJson_injective : Function.Injective Descriptor.toJson := by
  rintro ⟨generation, size⟩ ⟨generation', size'⟩ same
  simpa [toJson] using same

theorem Entry.toJson_injective : Function.Injective Entry.toJson := by
  rintro ⟨strategy, table⟩ ⟨strategy', table'⟩ same
  simp only [toJson, Json.object.injEq, List.cons.injEq, Prod.mk.injEq, Json.string.injEq, true_and,
    and_true] at same
  obtain ⟨rfl, tables⟩ := same
  rw [Descriptor.toJson_injective tables]

theorem StrategyState.toJson_injective : Function.Injective StrategyState.toJson := by
  have ids : Function.Injective fun ids : List Nat => Json.list (ids.map .number) := by
    intro ids others same
    exact List.map_injective_iff.2 (fun _ _ => Json.number.inj) (Json.list.inj same)
  have setting : Function.Injective fun entry : String × String =>
      (entry.1, Json.string entry.2) := by
    rintro ⟨key, value⟩ ⟨key', value'⟩ same
    simpa using same
  rintro ⟨id, name, tables, buckets, settings⟩ ⟨id', name', tables', buckets', settings'⟩ same
  simp only [toJson, Json.object.injEq, List.cons.injEq, Prod.mk.injEq, Json.string.injEq,
    Json.list.injEq, true_and, and_true] at same
  obtain ⟨rfl, rfl, listed, grouped, chosen⟩ := same
  rw [List.map_injective_iff.2 Descriptor.toJson_injective listed,
    List.map_injective_iff.2 ids grouped, List.map_injective_iff.2 setting chosen]

namespace Report

/-- The dates in a report are those of years that have dates. -/
def Dated : Report → Prop
  | compaction start stop _ _ => start.Dated ∧ stop.Dated
  | _ => True

instance : DecidablePred Dated
  | compaction start stop _ _ => inferInstanceAs (Decidable (start.Dated ∧ stop.Dated))
  | enable _ | disable _ | flush _ | pending .. => isTrue trivial

theorem entries_injective : Function.Injective entries := by
  intro es others same
  exact List.map_injective_iff.2 Entry.toJson_injective (Json.list.inj same)

/-- The kind of a report and its fields tell the report. -/
theorem eq_of_fields {r other : Report} (left : r.Dated) (right : other.Dated)
    (kinds : r.kind = other.kind) (same : r.fields = other.fields) : r = other := by
  have reference : Function.Injective fun id : String => Json.object [("id", .string id)] := by
    intro id other same
    simpa using same
  cases r with
  | enable strategies =>
    cases other with
    | enable others =>
      simp only [fields, List.cons.injEq, Prod.mk.injEq, Json.list.injEq, true_and,
        and_true] at same
      rw [List.map_injective_iff.2 StrategyState.toJson_injective same]
    | _ => simp [kind] at kinds
  | disable ids =>
    cases other with
    | disable others =>
      simp only [fields, List.cons.injEq, Prod.mk.injEq, Json.list.injEq, true_and,
        and_true] at same
      rw [List.map_injective_iff.2 reference same]
    | _ => simp [kind] at kinds
  | flush tables =>
    cases other with
    | flush others =>
      simp only [fields, List.cons.injEq, Prod.mk.injEq, true_and, and_true] at same
      rw [entries_injective same]
    | _ => simp [kind] at kinds
  | compaction start stop input output =>
    cases other with
    | compaction start' stop' input' output' =>
      simp only [fields, List.cons.injEq, Prod.mk.injEq, Json.string.injEq, true_and,
        and_true] at same
      obtain ⟨starts, stops, inputs, outputs⟩ := same
      rw [Moment.text_inj left.1 right.1 starts, Moment.text_inj left.2 right.2 stops,
        entries_injective inputs, entries_injective outputs]
    | _ => simp [kind] at kinds
  | pending strategy count =>
    cases other with
    | pending strategy' count' => simpa [fields] using same
    | _ => simp [kind] at kinds

end Report

namespace Event

/-- The fields of an event tell it, also if a date follows them in a log. -/
theorem eq_of_fields {e other : Event} (left : e.report.Dated) (right : other.report.Dated)
    {more others : List (String × Json)} (length : more.length = others.length)
    (same : e.fields ++ more = other.fields ++ others) : e = other ∧ more = others := by
  obtain ⟨fields, rest⟩ := List.append_inj' same length
  obtain ⟨⟨keyspace, table⟩, report⟩ := e
  obtain ⟨⟨keyspace', table'⟩, report'⟩ := other
  simp only [Event.fields, StoreName.fields, List.cons_append, List.nil_append, List.cons.injEq,
    Prod.mk.injEq, Json.string.injEq, true_and] at fields
  obtain ⟨rfl, rfl, kinds, fields⟩ := fields
  obtain rfl : report = report' := Report.eq_of_fields left right kinds fields
  exact ⟨rfl, rest⟩

theorem text_inj {e other : Event} (left : e.report.Dated) (right : other.report.Dated)
    (same : e.text = other.text) : e = other := by
  have fields := Json.object.inj (Json.text_injective same)
  have bare : e.fields ++ [] = other.fields ++ [] := by simpa using fields
  exact (eq_of_fields left right rfl bare).1

theorem logLine_inj {e other : Event} (left : e.report.Dated) (right : other.report.Dated)
    {date date' : String} (same : e.logLine date = other.logLine date') :
    e = other ∧ date = date' := by
  have fields := Json.object.inj (Json.text_injective same)
  have length : [("date", Json.string date)].length = [("date", Json.string date')].length := rfl
  obtain ⟨events, dates⟩ := eq_of_fields left right length fields
  simp only [List.cons.injEq, Prod.mk.injEq, Json.string.injEq, true_and, and_true] at dates
  exact ⟨events, dates⟩

end Event

/-! ### Lines -/

namespace Text

variable {feed back : Char} {line rest : List Char}

/-- A line without line feeds ends at the first one. -/
theorem cutAfter_append (clean : feed ∉ line) (rest : List Char) :
    cutAfter feed (line ++ feed :: rest) =
      (line :: (cutAfter feed rest).1, (cutAfter feed rest).2) := by
  simp [cutAfter_append_of_not_mem clean, cutAfter]

theorem dropLast_of_not_mem (clean : back ∉ line) : dropLast back line = line := by
  unfold dropLast
  split_ifs with last
  · exact absurd (List.mem_of_getLast? last) clean
  · rfl

/-- Lines that are written one behind the other are read back, if none of them holds the characters
that end a line. -/
theorem lines_textOf {written : List String} (clean : ∀ s ∈ written, ∀ c ∈ s.toList, 32 ≤ c.toNat) :
    lines (Journal.textOf written).toList = written.map String.toList := by
  have cut : cutAfter '\n' (Journal.textOf written).toList = (written.map String.toList, []) := by
    induction written with
    | nil => rfl
    | cons s written ih =>
      simp only [List.forall_mem_cons] at clean
      have feed : '\n' ∉ s.toList := fun member => absurd (clean.1 _ member) (by decide)
      simp [Journal.textOf_cons, cutAfter_append feed, ih clean.2]
  have whole : (written.map String.toList).map (dropLast '\r') = written.map String.toList := by
    simp only [List.map_map, List.map_inj_left]
    intro s member
    exact dropLast_of_not_mem fun back => absurd (clean s member _ back) (by decide)
  simp [lines, linesBy, cut, whole]

end Text

namespace Event

/-- The text of an event has no control characters, so that a log of so many events has as many
lines, each of which is the text of one event. Events with different names, tables, buckets,
settings or dates have different texts. -/
theorem texts_tell_events :
    (∀ e : Event, ∀ c ∈ e.text.toList, ' ' ≤ c) ∧
      (∀ (e : Event) (date : String), ∀ c ∈ (e.logLine date).toList, ' ' ≤ c) ∧
      (∀ log : List (Event × String),
        Text.lines (Journal.textOf (log.map fun (e, date) => e.logLine date)).toList =
          log.map fun (e, date) => (e.logLine date).toList) ∧
      ∀ e other : Event, e.report.Dated → other.report.Dated →
        (e.text = other.text → e = other) ∧
          ∀ date date', e.logLine date = other.logLine date' → e = other ∧ date = date' := by
  have printable {c : Char} (code : 32 ≤ c.toNat) : ' ' ≤ c := by
    rw [Char.le_def, UInt32.le_iff_toNat_le]
    exact code
  refine ⟨?_, ?_, ?_, ?_⟩
  · intro e c member
    exact printable (Json.text_printable _ c member)
  · intro e date c member
    exact printable (Json.text_printable _ c member)
  · intro log
    rw [Text.lines_textOf]
    · simp
    · intro s member
      obtain ⟨⟨e, date⟩, -, rfl⟩ := List.mem_map.1 member
      exact Json.text_printable _
  · intro e other left right
    exact ⟨text_inj left right, fun _ _ => logLine_inj left right⟩

/-- A name that closes its own quotes and goes on like a field is no such field. The merges end in
the first year that has dates. -/
theorem quotes_in_names_differ :
    let report : Report := .compaction ⟨0⟩ ⟨UInt64.size - 8334601228800000⟩ [] []
    let e : Event := { store := { keyspace := "k\",\"table\":\"t", table := "\n" }, report }
    let other : Event := { store := { keyspace := "k", table := "t\",\"table\":\"\n" }, report }
    report.Dated ∧ e.text ≠ other.text := by
  intro report e other
  have dated : report.Dated := by decide +kernel
  refine ⟨dated, fun same => ?_⟩
  have equal : e = other := (texts_tell_events.2.2.2 e other dated dated).1 same
  exact absurd equal (by decide)

end Event

end TieredCompaction
