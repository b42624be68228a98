import Std.Data.ExtTreeMap.Lemmas
import PriceOracle.CrossRoutes
import PriceOracle.MedianReducer

/-!
# Feed states

`price-feed/src/feed_state.rs`: what the sources of the Direct feeds observed, which of them are
polled, and the values of the feeds; and the poll of `high-storm/src/high_storm/prices.rs`, which
records what a source answered against the state at its end.
-/

namespace PriceOracle

/-- `MAX_POLLING_ERROR_NUM` -/
def maxPollingErrorNum : ℕ := 5

/-- `POLLING_RETRY_TIME` -/
def pollingRetryTime : UInt64 := 60

structure SourceRecord where
  state : SourceState
  failures : UInt32
  observation : Option SourceObservation
  retryAt : Option UInt64

/-- `SourceRecord::default` -/
def SourceRecord.fresh : SourceRecord := ⟨.active, 0, none, none⟩

namespace SourceRecord

def freeze (record : SourceRecord) : SourceRecord := { record with state := .frozen, retryAt := none }

def unfreeze (record : SourceRecord) : SourceRecord :=
  { record with state := .active, failures := 0, retryAt := none }

/-- `u32::saturating_add` of one. -/
def oneMore (failures : UInt32) : UInt32 := UInt32.ofNat (min (failures.toNat + 1) (2 ^ 32 - 1))

def pollFailed (now : UInt64) (record : SourceRecord) : SourceRecord :=
  if record.state = .frozen then record
  else
    let record := { record with failures := oneMore record.failures }
    if maxPollingErrorNum ≤ record.failures.toNat then
      { record with
        state := .dropped, observation := none, retryAt := some (saturatingAddU64 now pollingRetryTime) }
    else record

def pollSucceeded (obs : SourceObservation) (record : SourceRecord) : SourceRecord :=
  if record.state = .frozen then record
  else ⟨.active, 0, some obs, none⟩

end SourceRecord

/-- A Direct feed's sources and what they observed. -/
structure FeedState where
  definition : FeedDefinition
  registry : FeedRegistry
  sources : Std.ExtTreeMap ℕ SourceRecord

namespace FeedState

def new (definition : FeedDefinition) (registry : FeedRegistry) : FeedState := ⟨definition, registry, ∅⟩

def state (feed : FeedState) (source : ℕ) : SourceState :=
  feed.sources[source]?.elim .active SourceRecord.state

def lastObservedAt (feed : FeedState) (source : ℕ) : Option UInt64 := do
  let record ← feed.sources[source]?
  record.observation.map SourceObservation.observedAt

def isPollable (feed : FeedState) (now : UInt64) (source : ℕ) : Bool :=
  feed.sources[source]?.all fun record =>
    match record.state with
    | .active => true
    | .dropped => record.retryAt.any fun time => time ≤ now
    | .frozen => false

/-- `self.sources.entry(source).or_default()`, changed. -/
def modify (feed : FeedState) (source : ℕ) (change : SourceRecord → SourceRecord) : FeedState :=
  { feed with
    sources := feed.sources.insert source (change (feed.sources[source]?.getD .fresh)) }

def freeze (feed : FeedState) (source : ℕ) : FeedState := feed.modify source .freeze

def unfreeze (feed : FeedState) (source : ℕ) : FeedState := feed.modify source .unfreeze

def recordPollFailure (feed : FeedState) (now : UInt64) (source : ℕ) : FeedState :=
  feed.modify source (.pollFailed now)

def recordPollSuccess (feed : FeedState) (source : ℕ) (obs : SourceObservation) : FeedState :=
  feed.modify source (.pollSucceeded obs)

def records (feed : FeedState) : List SourceRecord := feed.sources.toList.map Prod.snd

def validObservations (feed : FeedState) (now : UInt64) : List SourceObservation :=
  (feed.records.filterMap SourceRecord.observation).filter fun obs => now ≤ obs.validUntil

def isAvailable (feed : FeedState) (now : UInt64) : Bool :=
  (feed.records.any fun record => record.state = .active) && !(feed.validObservations now).isEmpty

def value (feed : FeedState) (now : UInt64) : Option PriceFeedData :=
  if feed.isAvailable now then
    MedianReducer.reduce feed.registry feed.definition.id (feed.validObservations now)
  else none

end FeedState

structure CrossPair where
  definition : FeedDefinition
  routes : List CrossRoute.Route

structure FeedStates where
  states : Std.ExtTreeMap UInt32 FeedState
  crossPairs : Std.ExtTreeMap UInt32 CrossPair

namespace FeedStates

open CrossRoute (CrossPairError candidates)

/-- The Cross pairs of some definitions with their routes, if each has one. -/
def routed (registry : FeedRegistry) :
    List FeedDefinition → Option (Except CrossPairError (List (UInt32 × CrossPair)))
  | [] => some (.ok [])
  | definition :: definitions => do
    match ← candidates registry definition with
    | .error error => some (.error error)
    | .ok routes =>
      match ← routed registry definitions with
      | .error error => some (.error error)
      | .ok pairs => some (.ok ((definition.id, ⟨definition, routes⟩) :: pairs))

/-- `collect` into a `BTreeMap`: a later entry of one key replaces an earlier one. -/
def collect {A : Type} (entries : List (UInt32 × A)) : Std.ExtTreeMap UInt32 A :=
  entries.foldl (fun map entry => map.insert entry.1 entry.2) ∅

/-- Fails for a Cross pair that no route of Direct feeds can price. -/
def new (registry : FeedRegistry) : Option (Except CrossPairError FeedStates) := do
  match ← routed registry (registry.feeds.filter fun definition => definition.kind = .cross) with
  | .error error => some (.error error)
  | .ok pairs => some (.ok {
      states := collect ((registry.feeds.filter fun definition => definition.kind = .direct).map
        fun definition => (definition.id, FeedState.new definition registry))
      crossPairs := collect pairs })

/-- The values of a route's legs, if every one has one. -/
def legValues (states : FeedStates) (now : UInt64) (route : CrossRoute.Route) :
    Option (List CrossPrice.Leg) :=
  route.mapM fun leg => do
    let state ← states.states[leg.feed]?
    let value ← state.value now
    return (leg, value)

/-- The feed's value. A Cross pair is priced from the first route whose every leg is available,
and from nothing else. -/
def value (states : FeedStates) (now : UInt64) (feed : UInt32) : Option PriceFeedData :=
  match states.crossPairs[feed]? with
  | none => do (← states.states[feed]?).value now
  | some pair => do
    let legs ← pair.routes.findSome? (states.legValues now)
    (CrossPrice.compute pair.definition legs).toOption

/-- `get_mut`, and a change of the state it finds. -/
def modify (states : FeedStates) (feed : UInt32) (change : FeedState → FeedState) : FeedStates :=
  { states with states := states.states.alter feed (Option.map change) }

end FeedStates

section Lookups

namespace FeedStates

/-- A collected map holds nothing that was not among the entries. -/
theorem mem_of_collect {A : Type} {entries : List (UInt32 × A)} {key : UInt32} {a : A}
    (h : (collect entries)[key]? = some a) : (key, a) ∈ entries := by
  have hfold (entries : List (UInt32 × A)) (map : Std.ExtTreeMap UInt32 A)
      (h : (entries.foldl (fun map entry => map.insert entry.1 entry.2) map)[key]? = some a) :
      (key, a) ∈ entries ∨ map[key]? = some a := by
    induction entries generalizing map with
    | nil => exact .inr h
    | cons entry entries ih =>
      rcases ih _ h with hmem | hmap
      · exact .inl (List.mem_cons_of_mem _ hmem)
      · rw [Std.ExtTreeMap.getElem?_insert] at hmap
        split_ifs at hmap with hkey
        · obtain rfl := Std.LawfulEqCmp.eq_of_compare hkey
          cases hmap
          exact .inl List.mem_cons_self
        · exact .inr hmap
  rcases hfold entries ∅ h with hmem | hmap
  · exact hmem
  · simp at hmap

theorem getElem?_modify (states : FeedStates) (feed other : UInt32) (change : FeedState → FeedState) :
    (states.modify feed change).states[other]? =
      if feed = other then states.states[feed]?.map change else states.states[other]? := by
  unfold modify
  simp only [Std.ExtTreeMap.getElem?_alter, Std.LawfulEqCmp.compare_eq_iff_eq]

end FeedStates

namespace FeedState

/-- What is held of a source; nothing yet of one that was never called on. -/
def record (feed : FeedState) (source : ℕ) : SourceRecord := feed.sources[source]?.getD .fresh

variable {feed : FeedState} {source other : ℕ} {now : UInt64} {obs : SourceObservation}

theorem state_eq : feed.state source = (feed.record source).state := by
  unfold state record
  cases feed.sources[source]? <;> rfl

theorem lastObservedAt_eq : feed.lastObservedAt source =
    (feed.record source).observation.map SourceObservation.observedAt := by
  unfold lastObservedAt record
  cases feed.sources[source]? <;> rfl

theorem getElem?_modify_of_ne (change : SourceRecord → SourceRecord) (h : source ≠ other) :
    (feed.modify source change).sources[other]? = feed.sources[other]? := by
  unfold modify
  rw [Std.ExtTreeMap.getElem?_insert, if_neg (by rw [Std.LawfulEqCmp.compare_eq_iff_eq]; exact h)]

theorem record_modify_self (change : SourceRecord → SourceRecord) :
    (feed.modify source change).record source = change (feed.record source) := by
  unfold record modify
  rw [Std.ExtTreeMap.getElem?_insert_self]
  rfl

theorem record_modify_of_ne (change : SourceRecord → SourceRecord) (h : source ≠ other) :
    (feed.modify source change).record other = feed.record other := by
  unfold record
  rw [getElem?_modify_of_ne change h]

/-- Some source holds the observation. -/
def Holds (feed : FeedState) (obs : SourceObservation) : Prop :=
  ∃ (source : ℕ) (record : SourceRecord),
    feed.sources[source]? = some record ∧ record.observation = some obs

/-- Some source that was called on is active. -/
def SomeActive (feed : FeedState) : Prop :=
  ∃ (source : ℕ) (record : SourceRecord),
    feed.sources[source]? = some record ∧ record.state = .active

theorem mem_records {record : SourceRecord} :
    record ∈ feed.records ↔ ∃ source : ℕ, feed.sources[source]? = some record := by
  unfold records
  rw [List.mem_map]
  constructor
  · rintro ⟨⟨source, _⟩, hmem, rfl⟩
    exact ⟨source, Std.ExtTreeMap.mem_toList_iff_getElem?_eq_some.mp hmem⟩
  · rintro ⟨source, h⟩
    exact ⟨(source, record), Std.ExtTreeMap.mem_toList_iff_getElem?_eq_some.mpr h, rfl⟩

theorem mem_validObservations : obs ∈ feed.validObservations now ↔ feed.Holds obs ∧ now ≤ obs.validUntil := by
  unfold validObservations Holds
  rw [List.mem_filter, List.mem_filterMap, decide_eq_true_eq]
  simp only [mem_records]
  constructor
  · rintro ⟨⟨record, ⟨source, hrecord⟩, hobs⟩, hnow⟩
    exact ⟨⟨source, record, hrecord, hobs⟩, hnow⟩
  · rintro ⟨⟨source, record, hrecord, hobs⟩, hnow⟩
    exact ⟨⟨record, ⟨source, hrecord⟩, hobs⟩, hnow⟩

theorem isAvailable_iff : feed.isAvailable now = true ↔
    feed.SomeActive ∧ ∃ obs, feed.Holds obs ∧ now ≤ obs.validUntil := by
  have hne : (feed.validObservations now).isEmpty = false ↔
      ∃ obs, feed.Holds obs ∧ now ≤ obs.validUntil := by
    rw [List.isEmpty_eq_false_iff_exists_mem]
    simp only [mem_validObservations]
  unfold isAvailable SomeActive
  rw [Bool.and_eq_true, Bool.not_eq_true', hne, List.any_eq_true]
  simp only [mem_records, decide_eq_true_eq]
  constructor
  · rintro ⟨⟨record, ⟨source, hrecord⟩, hactive⟩, h⟩
    exact ⟨⟨source, record, hrecord, hactive⟩, h⟩
  · rintro ⟨⟨source, record, hrecord, hactive⟩, h⟩
    exact ⟨⟨record, ⟨source, hrecord⟩, hactive⟩, h⟩

/-- A feed has a value exactly where it is available and every observation that has not expired
is at the decimals of the feed. -/
theorem value_isSome_iff : (feed.value now).isSome ↔ feed.SomeActive ∧
    (∃ obs, feed.Holds obs ∧ now ≤ obs.validUntil) ∧
    ∃ definition, feed.registry.get feed.definition.id = some definition ∧
      ∀ obs, feed.Holds obs → now ≤ obs.validUntil → obs.decimals = definition.decimals := by
  unfold value
  by_cases havailable : feed.isAvailable now
  · obtain ⟨hactive, hobs⟩ := isAvailable_iff.mp havailable
    have hne : feed.validObservations now ≠ [] := by
      obtain ⟨obs, hobs⟩ := hobs
      exact List.ne_nil_of_mem (mem_validObservations.mpr hobs)
    rw [if_pos havailable]
    constructor
    · intro h
      obtain ⟨data, hdata⟩ := Option.isSome_iff_exists.mp h
      obtain ⟨definition, hdefinition, hdata⟩ := Option.bind_eq_some_iff.mp hdata
      dsimp only at hdata
      split_ifs at hdata with hmismatch
      rw [Bool.or_eq_true, not_or, List.any_eq_true] at hmismatch
      refine ⟨hactive, hobs, definition, hdefinition, fun obs hheld hvalid => ?_⟩
      by_contra hne
      exact hmismatch.2 ⟨obs, mem_validObservations.mpr ⟨hheld, hvalid⟩, by simpa using hne⟩
    · rintro ⟨-, -, definition, hdefinition, hdecimals⟩
      obtain ⟨data, hdata, -⟩ := MedianReducer.reduce_spec hdefinition hne fun obs hmem =>
        hdecimals obs (mem_validObservations.mp hmem).1 (mem_validObservations.mp hmem).2
      rw [hdata]
      rfl
  · rw [if_neg havailable]
    refine iff_of_false (by simp) ?_
    rintro ⟨hactive, hobs, -⟩
    exact havailable (isAvailable_iff.mpr ⟨hactive, hobs⟩)

end FeedState

end Lookups

section Poll

inductive PollOutcome where
  | skipped
  | observed
  | unchanged
  | failed
  deriving DecidableEq

/-- The end of a poll: what the source answered is judged by the state as it is then. -/
def FeedState.pollEnded (feed : FeedState) (now : UInt64) (index : ℕ)
    (answer : Except ConnectionError SourceObservation) : FeedState × PollOutcome :=
  match answer with
  | .ok obs =>
    match PriceSource.validate obs (feed.lastObservedAt index) with
    | .ok () => (feed.recordPollSuccess index obs, .observed)
    | .error .staleObservation => (feed, .unchanged)
    | .error _ => (feed.recordPollFailure now index, .failed)
  | .error _ => (feed.recordPollFailure now index, .failed)

end Poll

end PriceOracle
