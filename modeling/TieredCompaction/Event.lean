import TieredCompaction.Store
import TieredCompaction.Calendar
import TieredCompaction.Selection
/-!
What a compactor reports, and the text of a report.
-/
namespace TieredCompaction

open Text (Json)

/-- The strategy of a store and its tables when compaction is enabled. -/
structure StrategyState where
  id : String
  name : String
  tables : List Descriptor
  /-- The IDs of the tables of each bucket. -/
  buckets : List (List Nat)
  settings : List (String × String)
  deriving DecidableEq, Repr

structure Entry where
  strategy : String
  table : Descriptor
  deriving DecidableEq, Repr

inductive Report where
  | enable (strategies : List StrategyState)
  | disable (strategies : List String)
  | flush (tables : List Entry)
  | compaction (start stop : Moment) (input output : List Entry)
  | pending (strategy : String) (count : Nat)
  deriving DecidableEq, Repr

structure Event where
  store : StoreName
  report : Report
  deriving DecidableEq, Repr

namespace Descriptor

def toJson (d : Descriptor) : Json :=
  .object [("generation", .number d.generation), ("size", .number d.size)]

end Descriptor

namespace Entry

def ofTable (t : Table) : Entry :=
  { strategy := Options.strategyId, table := t.descriptor }

def toJson (e : Entry) : Json :=
  .object [("id", .string e.strategy), ("table", e.table.toJson)]

end Entry

namespace StrategyState

def toJson (s : StrategyState) : Json :=
  .object
    [("id", .string s.id), ("type", .string s.name), ("tables", .list (s.tables.map (·.toJson))),
      ("buckets", .list (s.buckets.map fun ids => .list (ids.map .number))),
      ("options", .object (s.settings.map fun (key, value) => (key, .string value)))]

end StrategyState

namespace Report

def kind : Report → String
  | enable .. => "enable"
  | disable .. => "disable"
  | flush .. => "flush"
  | compaction .. => "compaction"
  | pending .. => "pending"

def entries (es : List Entry) : Json :=
  .list (es.map (·.toJson))

/-- The fields of a report, behind its kind. -/
def fields : Report → List (String × Json)
  | enable strategies => [("strategies", .list (strategies.map (·.toJson)))]
  | disable strategies =>
    [("strategies", .list (strategies.map fun id => .object [("id", .string id)]))]
  | flush tables => [("tables", entries tables)]
  | compaction start stop input output =>
    [("start", .string start.text), ("end", .string stop.text), ("input", entries input),
      ("output", entries output)]
  | pending strategy count => [("strategy", .string strategy), ("pending", .number count)]

end Report

namespace Event

def fields (e : Event) : List (String × Json) :=
  e.store.fields ++ ("type", .string e.report.kind) :: e.report.fields

def toJson (e : Event) : Json :=
  .object e.fields

def text (e : Event) : String :=
  e.toJson.text

/-- The line of an event in a log, with the date of its writing. -/
def logLine (e : Event) (date : String) : String :=
  (Json.object (e.fields ++ [("date", .string date)])).text

end Event

end TieredCompaction
