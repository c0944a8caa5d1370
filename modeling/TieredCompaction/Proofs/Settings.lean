import TieredCompaction.Proofs.Binary64.Laws
import Mathlib.Logic.Function.Basic
/-!
Options from a map of strings, in whatever order the map is gone through. An entry sets its own
option and no other, and the first entry at fault ends the reading; so without a fault the order
leaves no trace, and with one the error tells a fault of the map.
-/
namespace TieredCompaction

/-- The entries of a map, in some order. -/
structure Lists (settings : List (String × String)) (map : String → Option String) : Prop where
  once : (settings.map (·.1)).Nodup
  entries : ∀ {key value}, (key, value) ∈ settings ↔ map key = some value

namespace Lists

variable {settings others : List (String × String)} {map : String → Option String}

theorem perm (lists : Lists settings map) (same : settings.Perm others) : Lists others map where
  once := (same.map _).nodup_iff.1 lists.once
  entries := same.mem_iff.symm.trans lists.entries

/-- Behind the first entry come those of the map without its key. -/
theorem tail {key value : String} (lists : Lists ((key, value) :: settings) map) :
    map key = some value ∧ Lists settings (Function.update map key none) := by
  obtain ⟨absent, once⟩ := List.nodup_cons.1 lists.once
  refine ⟨lists.entries.1 List.mem_cons_self, once, fun {other text} => ?_⟩
  by_cases same : other = key
  · subst same
    rw [Function.update_self]
    exact ⟨fun member => absurd (List.mem_map_of_mem member) absent, fun none => by cases none⟩
  · rw [Function.update_of_ne same, ← lists.entries, List.mem_cons]
    refine ⟨.inr, fun member => member.resolve_left fun equal => same ?_⟩
    exact congrArg Prod.fst equal

end Lists

/-- Entries with keys of their own list a map. -/
theorem lists_lookup {settings : List (String × String)} (once : (settings.map (·.1)).Nodup) :
    Lists settings fun key => settings.lookup key where
  once
  entries {key value} := by
    induction settings generalizing value with
    | nil => simp
    | cons entry rest ih =>
      obtain ⟨first, text⟩ := entry
      obtain ⟨absent, each⟩ := List.nodup_cons.1 once
      rw [List.mem_cons, ih each, List.lookup_cons]
      by_cases same : key = first
      · subst same
        have none : rest.lookup key = none := by
          cases found : rest.lookup key with
          | none => rfl
          | some value => exact absurd (List.mem_map_of_mem ((ih each).2 found)) absent
        simp [none, eq_comm]
      · have other : (key == first) = false := beq_eq_false_iff_ne.2 same
        simp [same, other]

namespace Options

def keys : List String :=
  [lowKey, highKey, minSizeKey]

/-- Whether the value of a known key can be read, once the blanks around it are cut off. -/
def reads (key value : String) : Bool :=
  if key = minSizeKey then (Decimal.readWord (Text.trim value.toList)).isSome
  else (Decimal.readNumber (Text.trim value.toList)).isSome

/-- The faults of a map: an unknown key, and a value that cannot be read. -/
inductive Faulty (map : String → Option String) : ConfigError → Prop where
  | unknown {key value : String} (present : map key = some value) (unknown : key ∉ keys) :
      Faulty map (.unknownOption key)
  | unread {key value : String} (present : map key = some value) (known : key ∈ keys)
      (unread : reads key value = false) : Faulty map (.unparseable key value)

/-- What is read for a key: the standard value, if the key is missing. -/
def valueAt {α : Type} (read : List Char → Option α) (map : String → Option String) (key : String)
    (standard : α) : Option α :=
  match map key with
  | none => some standard
  | some value => read (Text.trim value.toList)

/-- All keys are known, and the options are those read, or those of `start` for missing keys. -/
structure Given (start : Options Float) (map : String → Option String) (o : Options Float) :
    Prop where
  known : ∀ {key value}, map key = some value → key ∈ keys
  low : valueAt Decimal.readNumber map lowKey start.low = some o.low
  high : valueAt Decimal.readNumber map highKey start.high = some o.high
  minSize : valueAt Decimal.readWord map minSizeKey start.minSize = some o.minSize

section Values

variable {α : Type} {read : List Char → Option α} {map : String → Option String}
  {key other value : String} {standard : α}

theorem valueAt_present (present : map key = some value) :
    valueAt read map key standard = read (Text.trim value.toList) := by
  rw [valueAt, present]

theorem valueAt_update_self :
    valueAt read (Function.update map key none) key standard = some standard := by
  rw [valueAt, Function.update_self]

theorem valueAt_update_of_ne (differ : other ≠ key) :
    valueAt read (Function.update map key none) other standard = valueAt read map other standard := by
  rw [valueAt, valueAt, Function.update_of_ne differ]

end Values

variable {map : String → Option String} {start o p : Options Float} {key value : String}
  {e : ConfigError}

theorem Given.unique (first : Given start map o) (second : Given start map p) : o = p := by
  have low := Option.some.inj (first.low.symm.trans second.low)
  have high := Option.some.inj (first.high.symm.trans second.high)
  have minSize := Option.some.inj (first.minSize.symm.trans second.minSize)
  cases o
  cases p
  simp_all

theorem Given.reads_of_present (given : Given start map o) (present : map key = some value) :
    reads key value = true := by
  have low := given.low
  have high := given.high
  have minSize := given.minSize
  rcases List.mem_cons.1 (given.known present) with rfl | member
  · rw [valueAt_present present] at low
    rw [reads, if_neg (by decide), low]
    rfl
  rcases List.mem_cons.1 member with rfl | member
  · rw [valueAt_present present] at high
    rw [reads, if_neg (by decide), high]
    rfl
  · obtain rfl := List.mem_singleton.1 member
    rw [valueAt_present present] at minSize
    rw [reads, if_pos rfl, minSize]
    rfl

theorem Given.not_faulty (given : Given start map o) : ¬ Faulty map e := by
  rintro (⟨present, unknown⟩ | ⟨present, _, unread⟩)
  · exact unknown (given.known present)
  · rw [given.reads_of_present present] at unread
    cases unread

/-- What putting a setting in can come to: it sets its own option, or it is at fault. -/
inductive Setting (o : Options Float) (key value : String) :
    Except ConfigError (Options Float) → Prop where
  | low {low : Float} (isKey : key = lowKey)
      (read : Decimal.readNumber (Text.trim value.toList) = some low) :
      Setting o key value (.ok { o with low })
  | high {high : Float} (isKey : key = highKey)
      (read : Decimal.readNumber (Text.trim value.toList) = some high) :
      Setting o key value (.ok { o with high })
  | minSize {minSize : Nat} (isKey : key = minSizeKey)
      (read : Decimal.readWord (Text.trim value.toList) = some minSize) :
      Setting o key value (.ok { o with minSize })
  | unread (known : key ∈ keys) (unread : reads key value = false) :
      Setting o key value (.error (.unparseable key value))
  | unknown (unknown : key ∉ keys) : Setting o key value (.error (.unknownOption key))

theorem setting_set (o : Options Float) (key value : String) :
    Setting o key value (o.set key value) := by
  simp only [set]
  split
  · next isKey =>
    have known : key ∈ keys := isKey ▸ by decide
    split
    · next low read => exact .low isKey read
    · next none => exact .unread known (by rw [reads, isKey, if_neg (by decide), none]; rfl)
  next notLow =>
  split
  · next isKey =>
    have known : key ∈ keys := isKey ▸ by decide
    split
    · next high read => exact .high isKey read
    · next none => exact .unread known (by rw [reads, isKey, if_neg (by decide), none]; rfl)
  next notHigh =>
  split
  · next isKey =>
    have known : key ∈ keys := isKey ▸ by decide
    split
    · next minSize read => exact .minSize isKey read
    · next none => exact .unread known (by rw [reads, isKey, if_pos rfl, none]; rfl)
  · next notMinSize => exact .unknown (by simp [keys, notLow, notHigh, notMinSize])

theorem faulty_of_set (present : map key = some value) (refused : start.set key value = .error e) :
    Faulty map e := by
  have step := setting_set start key value
  rw [refused] at step
  cases step with
  | unread known unread => exact .unread present known unread
  | unknown unknown => exact .unknown present unknown

/-- What is given after one entry was put in was given before. -/
theorem Given.of_set (present : map key = some value) (done : start.set key value = .ok o)
    (given : Given o (Function.update map key none) p) : Given start map p := by
  have known (isKey : key ∈ keys) {other text : String} (held : map other = some text) :
      other ∈ keys := by
    by_cases same : other = key
    · exact same ▸ isKey
    · exact given.known ((Function.update_of_ne same none map).trans held)
  obtain ⟨_, low, high, minSize⟩ := given
  have step := setting_set start key value
  rw [done] at step
  cases step with
  | low isKey read =>
    subst isKey
    rw [valueAt_update_self] at low
    rw [valueAt_update_of_ne (by decide)] at high minSize
    exact ⟨known (by decide), (valueAt_present present).trans (read.trans low), high, minSize⟩
  | high isKey read =>
    subst isKey
    rw [valueAt_update_self] at high
    rw [valueAt_update_of_ne (by decide)] at low minSize
    exact ⟨known (by decide), low, (valueAt_present present).trans (read.trans high), minSize⟩
  | minSize isKey read =>
    subst isKey
    rw [valueAt_update_self] at minSize
    rw [valueAt_update_of_ne (by decide)] at low high
    exact ⟨known (by decide), low, high, (valueAt_present present).trans (read.trans minSize)⟩

/-- Puts settings in one by one, up to the first one at fault. -/
def setAll (o : Options Float) (settings : List (String × String)) :
    Except ConfigError (Options Float) :=
  settings.foldlM (fun o (key, value) => o.set key value) o

theorem setAll_cons (o : Options Float) (key value : String) (rest : List (String × String)) :
    o.setAll ((key, value) :: rest) = o.set key value >>= fun o => o.setAll rest := by
  rw [setAll, List.foldlM_cons]
  rfl

theorem ofSettings_eq (settings : List (String × String)) :
    ofSettings settings = standard.setAll settings >>= fun o => make o.low o.high o.minSize := rfl

theorem given_of_setAll {settings : List (String × String)} (lists : Lists settings map)
    (done : start.setAll settings = .ok o) : Given start map o := by
  induction settings generalizing start map with
  | nil =>
    have none (key : String) : map key = none := by
      cases held : map key with
      | none => rfl
      | some value => exact absurd (lists.entries.2 held) List.not_mem_nil
    cases done
    exact ⟨fun {key value} held => by simp [none key] at held, by rw [valueAt, none],
      by rw [valueAt, none], by rw [valueAt, none]⟩
  | cons entry rest ih =>
    obtain ⟨key, value⟩ := entry
    obtain ⟨present, lists⟩ := lists.tail
    rw [setAll_cons] at done
    cases first : start.set key value with
    | error e =>
      rw [first] at done
      cases done
    | ok next =>
      rw [first] at done
      exact (ih lists done).of_set present first

theorem faulty_of_setAll {settings : List (String × String)} (lists : Lists settings map)
    (refused : start.setAll settings = .error e) : Faulty map e := by
  induction settings generalizing start map with
  | nil => cases refused
  | cons entry rest ih =>
    obtain ⟨key, value⟩ := entry
    obtain ⟨present, lists⟩ := lists.tail
    rw [setAll_cons] at refused
    cases first : start.set key value with
    | error cause =>
      rw [first] at refused
      cases refused
      exact faulty_of_set present first
    | ok next =>
      rw [first] at refused
      -- what the map holds without the key of the first entry, it holds
      have held {other text : String} (found : Function.update map key none other = some text) :
          map other = some text := by
        by_cases same : other = key
        · subst same
          rw [Function.update_self] at found
          cases found
        · rwa [Function.update_of_ne same] at found
      rcases ih lists refused with ⟨found, unknown⟩ | ⟨found, known, unread⟩
      · exact .unknown (held found) unknown
      · exact .unread (held found) known unread

/-- A factor that lies strictly between zero and one, exactly. -/
def IsShare (x : Float) : Prop :=
  ∃ q, Binary64.asRational x = some q ∧ 0 < q ∧ q < 1

/-- A finite factor above one. -/
def IsMultiple (x : Float) : Prop :=
  ∃ q, Binary64.asRational x = some q ∧ 1 < q

/-- What reading a map comes to. -/
structure ReadFrom (map : String → Option String) (result : Except ConfigError (Options Float)) :
    Prop where
  /-- Options come about if and only if all keys are known, all values can be read and both factors
  are in range. -/
  accepted : ∀ o, result = .ok o ↔ Given standard map o ∧ IsShare o.low ∧ IsMultiple o.high
  /-- Faults come first: if there is one, one of them is told. -/
  faulty : (∃ e, Faulty map e) → ∃ e, result = .error e ∧ Faulty map e
  /-- Without a fault only the ranges can be missed, and the lower one is told first. -/
  outOfRange : (¬ ∃ e, Faulty map e) → ∃ o, Given standard map o ∧
    (¬ IsShare o.low → result = .error (.outOfRange lowKey (Quantity.text o.low))) ∧
    (IsShare o.low → ¬ IsMultiple o.high →
      result = .error (.outOfRange highKey (Quantity.text o.high)))

theorem make_ok_iff {low high : Float} {minSize : Nat} :
    make low high minSize = .ok o ↔
      o = { low, high, minSize } ∧ IsShare low ∧ IsMultiple high := by
  rw [IsShare, IsMultiple, ← Binary64.lowInRange_iff, ← Binary64.highInRange_iff, make]
  split
  · next below =>
    split
    · next above => simp [below, above, eq_comm]
    · next above => simp [above]
  · next below => simp [below]

theorem readFrom_ofSettings {settings : List (String × String)} (lists : Lists settings map) :
    ReadFrom map (ofSettings settings) := by
  rw [ofSettings_eq]
  cases all : standard.setAll settings with
  | error e =>
    have faulty : Faulty map e := faulty_of_setAll lists all
    refine ⟨fun o => ⟨fun done => ?_, fun ⟨given, _⟩ => ?_⟩, fun _ => ⟨e, rfl, faulty⟩,
      fun none => absurd ⟨e, faulty⟩ none⟩
    · cases done
    · exact absurd faulty given.not_faulty
  | ok read =>
    have given : Given standard map read := given_of_setAll lists all
    have made : (Except.ok read >>= fun o => make o.low o.high o.minSize) =
        make read.low read.high read.minSize := rfl
    rw [made]
    refine ⟨fun o => ?_, fun ⟨e, faulty⟩ => absurd faulty given.not_faulty, fun _ => ⟨read, given, ?_, ?_⟩⟩
    · rw [make_ok_iff]
      constructor
      · rintro ⟨rfl, ranges⟩
        exact ⟨given, ranges⟩
      · rintro ⟨other, ranges⟩
        obtain rfl := given.unique other
        exact ⟨rfl, ranges⟩
    · intro outside
      rw [IsShare, ← Binary64.lowInRange_iff] at outside
      rw [make, if_neg outside]
    · intro inside outside
      rw [IsShare, ← Binary64.lowInRange_iff] at inside
      rw [IsMultiple, ← Binary64.highInRange_iff] at outside
      rw [make, if_pos inside, if_neg outside]

/-- In whatever order a map is gone through, options come about if and only if the map gives some,
and the same ones; and what is refused is refused for a fault of the map. -/
theorem settings_read_in_any_order {map : String → Option String}
    {settings : List (String × String)} (lists : Lists settings map) :
    ReadFrom map (ofSettings settings) ∧
      ∀ others, Lists others map → ∀ o, ofSettings others = .ok o ↔ ofSettings settings = .ok o := by
  have read := readFrom_ofSettings lists
  refine ⟨read, fun others again o => ?_⟩
  rw [(readFrom_ofSettings again).accepted, read.accepted]

/-- A map of two settings, both with something around the digits, is read from either end. -/
theorem settings_read_from_either_end :
    let settings := [(lowKey, " 0.25 "), (minSizeKey, "+7")]
    let map := fun key => settings.lookup key
    Lists settings map ∧ ReadFrom map (ofSettings settings) ∧
      (∀ o, ofSettings settings.reverse = .ok o ↔ ofSettings settings = .ok o) ∧
      (ofSettings settings).toOption.map (·.minSize) = some 7 := by
  intro settings map
  have lists : Lists settings map := lists_lookup (by decide)
  obtain ⟨read, again⟩ := settings_read_in_any_order lists
  exact ⟨lists, read, again _ (lists.perm settings.reverse_perm.symm), by decide +kernel⟩

/-- Of two faults the first one is told, and a value out of range comes after both. -/
example :
    let settings := [(highKey, "inf"), (lowKey, "1e"), ("bucket", "1")]
    ofSettings settings = .error (.unparseable lowKey "1e") ∧
      ofSettings settings.reverse = .error (.unknownOption "bucket") ∧
      ofSettings (settings.take 1) = .error (.outOfRange highKey "inf") :=
  ⟨rfl, rfl, rfl⟩

end Options

end TieredCompaction
