import TieredCompaction.Proofs.Decimal.RoundTrip
import TieredCompaction.Proofs.Settings
import TieredCompaction.Proofs.Site.Calls
/-!
Options come back from the settings that they are written to, bit by bit and in whatever order the
settings are read. So does the strategy of a store from any of its events of enabling.
-/
namespace TieredCompaction

namespace Options

variable {o : Options Float} {map : String → Option String}

theorem lists_settings (o : Options Float) : Lists o.settings fun key => o.settings.lookup key := by
  apply lists_lookup
  show [lowKey, highKey, minSizeKey].Nodup
  decide

/-- The settings of options give these options. -/
theorem given_settings (lists : Lists o.settings map) (below : lowInRange o.low = true)
    (above : highInRange o.high = true) (word : o.minSize < UInt64.size) :
    Given standard map o where
  known {key value} present := by
    have member := List.mem_map_of_mem (f := Prod.fst) (lists.entries.2 present)
    exact member
  low := by
    obtain ⟨_, _, positive, _⟩ := Binary64.positive_of_lowInRange below
    have present : map lowKey = some (Quantity.text o.low) :=
      lists.entries.1 (by simp [settings])
    rw [valueAt_present present]
    exact Decimal.readNumber_text positive
  high := by
    obtain ⟨_, _, positive, _⟩ := Binary64.positive_of_highInRange above
    have present : map highKey = some (Quantity.text o.high) :=
      lists.entries.1 (by simp [settings])
    rw [valueAt_present present]
    exact Decimal.readNumber_text positive
  minSize := by
    have present : map minSizeKey = some (toString o.minSize) :=
      lists.entries.1 (by simp [settings])
    rw [valueAt_present present]
    exact Decimal.readWord_toString word

/-- Sorting the settings does not alter the map. -/
theorem lists_sortedSettings (o : Options Float) :
    Lists o.sortedSettings fun key => o.settings.lookup key :=
  (lists_settings o).perm (perm_sortBy _ _).symm

theorem lookup_sortedSettings (o : Options Float) :
    (fun key => o.sortedSettings.lookup key) = fun key => o.settings.lookup key := by
  have lists := lists_sortedSettings o
  have same := lists_lookup lists.once
  exact funext fun key => Option.ext fun value => same.entries.symm.trans lists.entries

theorem ofSettings_settings (below : lowInRange o.low = true) (above : highInRange o.high = true)
    (word : o.minSize < UInt64.size) {settings : List (String × String)}
    (lists : Lists settings fun key => o.settings.lookup key) : ofSettings settings = .ok o := by
  have given := given_settings (lists_settings o) below above word
  refine ((readFrom_ofSettings lists).accepted o).2 ⟨given, ?_, ?_⟩
  · exact Binary64.lowInRange_iff.1 below
  · exact Binary64.highInRange_iff.1 above

end Options

/-- A strategy as it is told of with given options. -/
structure StrategyState.TellsOf {R : Type} [Quantity R] (state : StrategyState) (o : Options R) :
    Prop where
  id : state.id = Options.strategyId
  name : state.name = Options.strategyName
  settings : state.settings = o.sortedSettings

namespace Site

/-- An event that is told of under a condition, if at all, tells of no strategy unless it is one of
enabling. -/
theorem states_of_told {condition : Prop} [Decidable condition] {event : Event}
    (other : ∀ states, event.report ≠ .enable states) (state : StrategyState) :
    ∀ e ∈ (if condition then [event] else []), ∀ states, e.report = .enable states →
      states = [state] := by
  intro e told states enables
  rw [List.mem_ite_nil_right, List.mem_singleton] at told
  rw [told.2] at enables
  exact absurd enables (other states)

variable {R : Type} [Quantity R] {s t : Site R}

theorem tellsOf_strategyState (s : Site R) : s.strategyState.TellsOf s.compactor.options where
  id := rfl
  name := rfl
  settings := rfl

/-- Of what an act tells, only enabling tells of a strategy, and of the one that the store has. -/
theorem events_act {direct : Prop} (act : Act direct s t) :
    ∃ told, t.compactor.events = s.compactor.events ++ told ∧
      ∀ e ∈ told, ∀ states, e.report = .enable states → states = [s.strategyState] := by
  have same : s.compactor.events = s.compactor.events ++ [] := (List.append_nil _).symm
  cases act with
  | switchOn off =>
    refine ⟨_, congrArg Compactor.events s.switchOn_compactor, fun e told states enables => ?_⟩
    rw [List.mem_singleton.1 told] at enables
    cases enables
    rfl
  | switchOff on =>
    refine ⟨_, congrArg Compactor.events (disable_compactor on), fun e told states enables => ?_⟩
    rw [List.mem_singleton.1 told] at enables
    cases enables
  | takeIn tables =>
    exact ⟨_, congrArg Compactor.events (s.takeIn_compactor tables), states_of_told (by nofun) _⟩
  | passOver on none =>
    exact ⟨_, congrArg Compactor.events s.passOver_compactor, states_of_told (by nofun) _⟩
  | @handOver chosen on some =>
    exact ⟨_, congrArg Compactor.events (s.handOver_compactor chosen), states_of_told (by nofun) _⟩
  | @settle job waits outputs =>
    exact ⟨_, congrArg Compactor.events (s.settleJob_compactor job outputs),
      states_of_told (by nofun) _⟩
  | replace allowed start inputs stop outputs =>
    exact ⟨_, congrArg Compactor.events (s.replace_compactor start inputs stop outputs),
      states_of_told (by nofun) _⟩
  | _ => exact ⟨[], same, List.forall_mem_nil _⟩

/-- All events of enabling so far tell of the one strategy of the store. -/
def Declared (s : Site R) : Prop :=
  ∀ e ∈ s.compactor.events, ∀ states, e.report = .enable states →
    ∃ state, states = [state] ∧ state.TellsOf s.compactor.options

theorem Declared.act {direct : Prop} (declared : s.Declared) (act : Act direct s t) :
    t.Declared := by
  obtain ⟨told, events, fits⟩ := events_act act
  intro e member states enables
  rw [events] at member
  rw [options_act act]
  rcases List.mem_append.1 member with before | now
  · exact declared e before states enables
  · exact ⟨s.strategyState, fits e now states enables, s.tellsOf_strategyState⟩

theorem declared_run (s : Site R) (o : Opening R) (calls : List (Call R)) :
    ((s.opened o).run calls).Declared := by
  have opened := s.orderly_opened o
  refine invariant (P := Declared) (fun _ declared act => declared.act act)
    (acts_run_any opened calls) opened ?_
  intro e told
  cases told

end Site

/-- Options that were accepted come back, with both factors bit by bit, from the map of their
settings, in whatever order it is gone through. Whatever a store with these options does, each of
its events of enabling tells of one strategy, the one by which it compacts, and the settings told
give the same options. -/
theorem options_rebuilt_from_settings {low high : Float} {minSize : Nat} {o : Options Float}
    (made : Options.make low high minSize = .ok o) (word : minSize < UInt64.size) :
    (Lists o.settings fun key => o.settings.lookup key) ∧
      (∀ settings, (Lists settings fun key => o.settings.lookup key) →
        Options.ofSettings settings = .ok o) ∧
      ∀ (s : Site Float) (p : Opening Float), p.options = o → ∀ calls,
        ∀ e ∈ ((s.opened p).run calls).compactor.events, ∀ states, e.report = .enable states →
          ∃ state, states = [state] ∧ state.id = Options.strategyId ∧
            state.name = Options.strategyName ∧
            (Lists state.settings fun key => state.settings.lookup key) ∧
            ∀ settings, (Lists settings fun key => state.settings.lookup key) →
              Options.ofSettings settings = .ok o := by
  obtain rfl := (Options.make_ok_iff.1 made).1
  obtain ⟨below, above⟩ := Options.inRange_of_make made
  refine ⟨Options.lists_settings _, fun _ => Options.ofSettings_settings below above word, ?_⟩
  rintro s p same calls e told states enables
  obtain ⟨state, rfl, tells⟩ := s.declared_run p calls e told states enables
  have options : ((s.opened p).run calls).compactor.options = _ :=
    (Site.options_run (s.orderly_opened p) calls).trans same
  rw [options] at tells
  refine ⟨state, rfl, tells.id, tells.name, ?_⟩
  rw [tells.settings, Options.lookup_sortedSettings]
  refine ⟨Options.lists_sortedSettings _, fun settings lists => ?_⟩
  exact Options.ofSettings_settings below above word lists

/-- The least positive share, the greatest multiple and the greatest word come back from their
settings in reverse, and from the event of enabling. -/
theorem outermost_options_rebuilt :
    let o : Options Float :=
      { low := .ofBits 1, high := .ofBits 0x7FEFFFFFFFFFFFFF, minSize := UInt64.size - 1 }
    let opening : Opening Float := { Opening.sample .keep with options := o }
    Options.make o.low o.high o.minSize = .ok o ∧ o.minSize < UInt64.size ∧
      Options.ofSettings o.settings.reverse = .ok o ∧
      ∃ e ∈ ((Site.sample.opened opening).run [.enable]).compactor.events, ∃ state,
        e.report = .enable [state] ∧ Options.ofSettings state.settings = .ok o := by
  intro o opening
  have below : Options.lowInRange o.low = true := by decide +kernel
  have above : Options.highInRange o.high = true := by decide +kernel
  have made : Options.make o.low o.high o.minSize = .ok o := by
    rw [Options.make, if_pos below, if_pos above]
  have word : o.minSize < UInt64.size := by decide
  obtain ⟨lists, rebuilt, events⟩ := options_rebuilt_from_settings made word
  refine ⟨made, word, rebuilt _ (lists.perm o.settings.reverse_perm.symm), ?_⟩
  have told : ((Site.sample.opened opening).run [.enable]).compactor.events =
      [{ store := opening.store
         report := .enable [(Site.sample.opened opening).strategyState] }] := rfl
  have member := told ▸ List.mem_singleton_self _
  obtain ⟨state, one, _, _, listed, again⟩ :=
    events Site.sample opening rfl [.enable] _ member _ rfl
  exact ⟨_, member, state, congrArg Report.enable one, again _ listed⟩

end TieredCompaction
