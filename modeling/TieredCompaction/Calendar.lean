import TieredCompaction.Text.Json
/-!
Moments and their dates. A moment is a count of milliseconds from the start of 1970; its date is
written in the proleptic Gregorian calendar, for a local time zone at offset zero. In another zone the
dates of events are other texts; nothing else depends on the zone.
-/
namespace TieredCompaction

/-- A moment as a 64-bit count of milliseconds. The upper half of the range lies before 1970. -/
structure Moment where
  millis : Nat
  deriving DecidableEq, Repr

namespace Calendar

structure Date where
  year : Int
  month : Nat
  day : Nat
  deriving DecidableEq, Repr

/-- The date of a day counted from 1970-01-01. Years are taken to start in March, so that the leap
day ends a year; 400 of them have 146097 days. -/
def dateOfDay (day : Int) : Date :=
  let shifted := day + 719468
  let era := shifted / 146097
  let dayOfEra := (shifted % 146097).toNat
  let yearOfEra := (dayOfEra - dayOfEra / 1460 + dayOfEra / 36524 - dayOfEra / 146096) / 365
  let dayOfYear := dayOfEra - (365 * yearOfEra + yearOfEra / 4 - yearOfEra / 100)
  let monthFromMarch := (5 * dayOfYear + 2) / 153
  let month := if monthFromMarch < 10 then monthFromMarch + 3 else monthFromMarch - 9
  { year := yearOfEra + era * 400 + (if month ≤ 2 then 1 else 0)
    month
    day := dayOfYear - (153 * monthFromMarch + 2) / 5 + 1 }

def padded (width n : Nat) : String :=
  let digits := toString n
  String.ofList (List.replicate (width - digits.length) '0') ++ digits

/-- Four digits; years outside 0 to 9999 have a sign in front. -/
def yearText (year : Int) : String :=
  if 0 ≤ year ∧ year ≤ 9999 then padded 4 year.toNat
  else if year < 0 then "-" ++ padded 4 year.natAbs
  else "+" ++ padded 4 year.natAbs

def hasYear (year : Int) : Bool :=
  -262143 ≤ year && year ≤ 262142

end Calendar

namespace Moment

/-- Milliseconds from the start of 1970, negative before it. -/
def signed (m : Moment) : Int :=
  if m.millis < Nat.pow 2 63 then m.millis else m.millis - (UInt64.size : Nat)

/-- The date and time of day at offset zero, with three decimals of the second unless they are zero. A
moment whose year has no dates has no text. -/
def text (m : Moment) : String :=
  let day := m.signed / 86400000
  let ofDay := (m.signed % 86400000).toNat
  let date := Calendar.dateOfDay day
  if Calendar.hasYear date.year then
    let two := Calendar.padded 2
    let fraction := ofDay % 1000
    Calendar.yearText date.year ++ "-" ++ two date.month ++ "-" ++ two date.day ++ "T" ++
      two (ofDay / 3600000) ++ ":" ++ two (ofDay / 60000 % 60) ++ ":" ++ two (ofDay / 1000 % 60) ++
      (if fraction = 0 then "" else "." ++ Calendar.padded 3 fraction) ++ "+00:00"
  else ""

def detail (m : Moment) : String :=
  s!"Timestamp({m.millis})"

def toJson (m : Moment) : Text.Json :=
  .number m.millis

/-- The milliseconds from one moment to a later one, and none to an earlier one. -/
def since (stop start : Moment) : Nat :=
  stop.millis - start.millis

end Moment

end TieredCompaction
