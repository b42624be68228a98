import PriceOracle.CrossValues
import PriceOracle.FeedSources

/-!
# Whether a node accepts its own price

A feed has a value until its observations expire, and a rate is accepted only before it expires.
A node therefore refuses the value that it holds itself exactly in the second in which an
observation behind it expires, and where a clock ran back or two definitions share an id.
-/

namespace PriceOracle

open PriceFeedData (maxClockSkew validityWindow)

/-- What a source answers is valid for the window. -/
def PriceEvent.Built (event : PriceEvent) : Prop :=
  ∀ feed source obs, event = .pollEnds feed source (.ok obs) →
    ∃ price decimals observedAt receivedAt, obs = .new price decimals observedAt receivedAt

/-- An observation that a source built and that was recorded. -/
structure SourceObservation.Recorded (obs : SourceObservation) : Prop where
  price : obs.price ≠ 0
  window : obs.validUntil.toNat ≤ obs.receivedAt.toNat + validityWindow

section Held

open PriceNode

variable {registry : FeedRegistry} {feeds : FeedStates} {start now : UInt64} {events : List PriceEvent}
  {feed : UInt32} {state : FeedState} {obs : SourceObservation}

theorem recorded_of_new {price : UInt64} {decimals : UInt32} {observedAt receivedAt : UInt64}
    {last : Option UInt64}
    (h : PriceSource.validate (.new price decimals observedAt receivedAt) last = .ok ()) :
    (SourceObservation.new price decimals observedAt receivedAt).Recorded := by
  refine ⟨(PriceSource.validate_ok_iff.mp h).1, ?_⟩
  unfold SourceObservation.new
  rw [toNat_saturatingAddU64]
  exact min_le_left _ _

/-- Every observation that a record holds was recorded. -/
theorem recorded_of_calls {calls : List SourceCall}
    (h : ∀ obs, .succeeded obs ∈ calls → obs.Recorded)
    (hobs : (SourceRecord.after calls).observation = some obs) : obs.Recorded := by
  rw [(follows_after calls).observation] at hobs
  have hmem := List.mem_of_head? hobs
  clear hobs
  induction calls with
  | nil => cases hmem
  | cons call calls ih =>
    have hrest := ih fun obs hobs => h obs (List.mem_cons_of_mem _ hobs)
    cases call with
    | failed now =>
      rw [recordedSince] at hmem
      split_ifs at hmem
      · cases hmem
      · exact hrest hmem
    | succeeded obs' =>
      rw [recordedSince] at hmem
      split_ifs at hmem
      · exact hrest hmem
      · rcases List.mem_cons.mp hmem with rfl | hmem
        · exact h obs List.mem_cons_self
        · exact hrest hmem
    | frozen => exact hrest hmem
    | unfrozen => exact hrest hmem

/-- A recorded success was answered by a poll. -/
theorem recorded_of_mem_calls {node : PriceNode} {source : ℕ}
    (hbuilt : ∀ event ∈ events, event.Built)
    (h : .succeeded obs ∈ node.calls feed source events) : obs.Recorded := by
  induction events with
  | nil => cases h
  | cons event events ih =>
    rcases List.mem_append.mp h with hmem | hmem
    · obtain ⟨state, -, hcall⟩ := Option.bind_eq_some_iff.mp (Option.mem_toList.mp hmem)
      obtain ⟨⟨feed', source', rfl⟩, hvalid⟩ := FeedState.callOf_succeeded hcall
      obtain ⟨price, decimals, observedAt, receivedAt, rfl⟩ :=
        hbuilt _ List.mem_cons_self feed' source' obs rfl
      exact recorded_of_new hvalid
    · exact ih (fun event hevent => hbuilt event (List.mem_cons_of_mem _ hevent)) hmem

theorem recorded_of_holds (hnew : FeedStates.new registry = some (.ok feeds))
    (hbuilt : ∀ event ∈ events, event.Built)
    (hstate : ((started feeds start).after events).feeds.states[feed]? = some state)
    (hobs : state.Holds obs) : obs.Recorded := by
  obtain ⟨source, record, hsource, hobs⟩ := hobs
  obtain ⟨-, -, -, hrecord⟩ := record_after hnew hstate
  have hcalled : (SourceRecord.after ((started feeds start).calls feed source events)).observation =
      some obs := by
    rw [← (hrecord source).1, FeedState.record, hsource]
    exact hobs
  exact recorded_of_calls (fun obs => recorded_of_mem_calls hbuilt) hcalled

end Held

section Direct

variable {feed : FeedState} {now : UInt64} {data : PriceFeedData}

/-- What a feed's value says of the observations that it is reduced from. -/
structure FeedState.Valued (feed : FeedState) (now : UInt64) (data : PriceFeedData) : Prop where
  feedId : data.feedId = feed.definition.id
  definition : ∃ definition, feed.registry.get feed.definition.id = some definition ∧
    data.decimals = definition.decimals
  price : ∃ obs, feed.Holds obs ∧ obs.price ≤ data.price
  receivedAt : (∃ obs, feed.Holds obs ∧ now ≤ obs.validUntil ∧ data.receivedAt = obs.receivedAt) ∧
    ∀ obs, feed.Holds obs → now ≤ obs.validUntil → data.receivedAt ≤ obs.receivedAt
  validUntil : (∃ obs, feed.Holds obs ∧ now ≤ obs.validUntil ∧ data.validUntil = obs.validUntil) ∧
    ∀ obs, feed.Holds obs → now ≤ obs.validUntil → data.validUntil ≤ obs.validUntil

theorem FeedState.valued_of_value (h : feed.value now = some data) : feed.Valued now data := by
  obtain ⟨-, ⟨obs, hheld, hvalid⟩, definition, hdefinition, hdecimals⟩ :=
    FeedState.value_isSome_iff.mp (Option.isSome_iff_exists.mpr ⟨data, h⟩)
  have hne : feed.validObservations now ≠ [] :=
    List.ne_nil_of_mem (FeedState.mem_validObservations.mpr ⟨hheld, hvalid⟩)
  obtain ⟨data', hdata', hid, hreduced, -⟩ := MedianReducer.reduce_spec hdefinition hne
    fun obs hmem => hdecimals obs (FeedState.mem_validObservations.mp hmem).1
      (FeedState.mem_validObservations.mp hmem).2
  unfold FeedState.value at h
  split_ifs at h
  obtain rfl : data' = data := Option.some.inj (hdata'.symm.trans h)
  obtain ⟨⟨received, hreceived, hreceivedEq⟩, hreceivedLe⟩ := hreduced.receivedAt
  obtain ⟨⟨valid, hvalidMem, hvalidEq⟩, hvalidLe⟩ := hreduced.validUntil
  obtain ⟨least, hleast, hprice⟩ := hreduced.smallest
  simp only [FeedState.mem_validObservations] at hreceived hreceivedLe hvalidMem hvalidLe hleast
  exact ⟨hid, ⟨definition, hdefinition, hreduced.decimals⟩, ⟨least, hleast.1, hprice⟩,
    ⟨⟨received, hreceived.1, hreceived.2, hreceivedEq⟩, fun obs hheld hvalid =>
      hreceivedLe obs ⟨hheld, hvalid⟩⟩,
    ⟨⟨valid, hvalidMem.1, hvalidMem.2, hvalidEq⟩, fun obs hheld hvalid =>
      hvalidLe obs ⟨hheld, hvalid⟩⟩⟩

/-- No held observation expires in this very second, and one that has not expired was not received
later than clocks explain. -/
structure FeedState.Fine (feed : FeedState) (now : UInt64) : Prop where
  unexpired : ∀ obs, feed.Holds obs → obs.validUntil ≠ now
  received : ∃ obs, feed.Holds obs ∧ now ≤ obs.validUntil ∧
    obs.receivedAt.toNat ≤ now.toNat + maxClockSkew

/-- A feed is fine exactly where its value is one that a signer takes. -/
theorem FeedState.fine_iff (h : feed.Valued now data) : feed.Fine now ↔
    now < data.validUntil ∧ data.receivedAt.toNat ≤ now.toNat + maxClockSkew := by
  obtain ⟨⟨received, hreceivedHeld, hreceivedValid, hreceivedEq⟩, hreceivedLe⟩ := h.receivedAt
  obtain ⟨⟨valid, hvalidHeld, hvalidValid, hvalidEq⟩, hvalidLe⟩ := h.validUntil
  constructor
  · rintro ⟨hunexpired, obs, hheld, hobs, hreceived⟩
    refine ⟨?_, ?_⟩
    · rw [hvalidEq]
      exact UInt64.lt_of_le_of_ne hvalidValid (hunexpired valid hvalidHeld).symm
    · have := UInt64.le_iff_toNat_le.mp (hreceivedLe obs hheld hobs)
      omega
  · rintro ⟨hfresh, hreceived⟩
    refine ⟨fun obs hheld heq => ?_, received, hreceivedHeld, hreceivedValid, hreceivedEq ▸ hreceived⟩
    have hle := hvalidLe obs hheld (heq ▸ UInt64.le_refl now)
    exact UInt64.not_lt.mpr (heq ▸ hle) hfresh

end Direct

section Validate

variable {registry : FeedRegistry} {definition : FeedDefinition} {now : UInt64} {data : PriceFeedData}

theorem stampedAhead_eq_false_iff :
    data.stampedAhead now = false ↔ data.receivedAt.toNat ≤ now.toNat + maxClockSkew := by
  have := data.receivedAt.toNat_lt
  unfold PriceFeedData.stampedAhead Assets.saturatingAdd
  rw [decide_eq_false_iff_not]
  omega

theorem validityStretched_eq_false_iff : data.validityStretched = false ↔
    data.validUntil.toNat ≤ data.receivedAt.toNat + validityWindow := by
  have := data.validUntil.toNat_lt
  unfold PriceFeedData.validityStretched Assets.saturatingAdd
  rw [decide_eq_false_iff_not]
  omega

/-- A positive price does not deviate from itself. -/
theorem withinDeviation_self (h : 0 < data.price.toNat) :
    PriceInstruction.withinDeviation data.price data.price = true := by
  unfold PriceInstruction.withinDeviation
  rw [sub_self, Int.natAbs_zero, Nat.zero_mul, decide_eq_true_eq]
  exact Nat.mul_pos h (by decide)

/-- Whether a node takes its own value is a matter of the clock and of the decimals alone. -/
theorem validate_self_iff (hdefinition : registry.get data.feedId = some definition)
    (hprice : 0 < data.price.toNat)
    (hwindow : data.validUntil.toNat ≤ data.receivedAt.toNat + validityWindow) :
    PriceInstruction.validate data registry (some data) now = .ok () ↔
      (now < data.validUntil ∧ data.receivedAt.toNat ≤ now.toNat + maxClockSkew) ∧
        data.decimals = definition.decimals := by
  rw [PriceInstruction.validate_ok_iff]
  constructor
  · rintro ⟨definition', _, hdefinition', -, hfresh, hahead, -, hdecimals, -⟩
    obtain rfl := Option.some.inj (hdefinition.symm.trans hdefinition')
    exact ⟨⟨hfresh, stampedAhead_eq_false_iff.mp hahead⟩, hdecimals⟩
  · rintro ⟨⟨hfresh, hahead⟩, hdecimals⟩
    exact ⟨definition, data, hdefinition, rfl, hfresh, stampedAhead_eq_false_iff.mpr hahead,
      validityStretched_eq_false_iff.mpr hwindow, hdecimals, withinDeviation_self hprice⟩

end Validate

section Own

open PriceNode

variable {registry : FeedRegistry} {feeds : FeedStates} {start now : UInt64} {events : List PriceEvent}
  {feed : UInt32} {state : FeedState} {data : PriceFeedData}

/-- The value of a feed of a run has a price, and is valid no longer than the window. -/
theorem value_window (hnew : FeedStates.new registry = some (.ok feeds))
    (hbuilt : ∀ event ∈ events, event.Built)
    (hstate : ((started feeds start).after events).feeds.states[feed]? = some state)
    (h : state.Valued now data) :
    0 < data.price.toNat ∧ data.validUntil.toNat ≤ data.receivedAt.toNat + validityWindow := by
  obtain ⟨least, hleast, hprice⟩ := h.price
  obtain ⟨received, hreceived, hvalid, heq⟩ := h.receivedAt.1
  have hpos := (recorded_of_holds hnew hbuilt hstate hleast).price
  have hwindow := (recorded_of_holds hnew hbuilt hstate hreceived).window
  have hle := UInt64.le_iff_toNat_le.mp (h.validUntil.2 received hreceived hvalid)
  constructor
  · have hprice := UInt64.le_iff_toNat_le.mp hprice
    have := Nat.pos_of_ne_zero fun hzero => hpos (UInt64.toNat_inj.mp hzero)
    omega
  · rw [heq]
    omega

end Own

section Cross

open PriceNode

variable {registry : FeedRegistry} {states feeds : FeedStates} {start now : UInt64} {events : List PriceEvent}
  {feed : UInt32} {route : CrossRoute.Route} {legs : List CrossPrice.Leg} {data : PriceFeedData}

/-- What is held of a feed makes up a value. -/
def FeedState.Priced (state : FeedState) (now : UInt64) : Prop :=
  state.SomeActive ∧ (∃ obs, state.Holds obs ∧ now ≤ obs.validUntil) ∧
    ∃ definition, state.registry.get state.definition.id = some definition ∧
      ∀ obs, state.Holds obs → now ≤ obs.validUntil → obs.decimals = definition.decimals

/-- Every leg of the route has a value. -/
def FeedStates.Priced (states : FeedStates) (now : UInt64) (route : CrossRoute.Route) : Prop :=
  ∀ leg ∈ route, ∃ state, states.states[leg.feed]? = some state ∧ state.Priced now

open Classical in
/-- The route that a Cross pair is priced from: the first whose every leg has a value. -/
noncomputable def FeedStates.pricedRoute (states : FeedStates) (now : UInt64) (pair : CrossPair) :
    Option CrossRoute.Route :=
  pair.routes.find? fun route => states.Priced now route

/-- The legs of a route with the values of their feeds. -/
structure LegsOf (states : FeedStates) (now : UInt64) (route : CrossRoute.Route)
    (legs : List CrossPrice.Leg) : Prop where
  valued : ∀ leg ∈ legs, leg.1 ∈ route ∧ ∃ state, states.states[leg.1.feed]? = some state ∧
    state.value now = some leg.2
  complete : ∀ path ∈ route, ∃ leg ∈ legs, leg.1 = path

theorem FeedStates.legsOf_legValues (h : states.legValues now route = some legs) :
    LegsOf states now route legs := by
  unfold FeedStates.legValues at h
  induction route generalizing legs with
  | nil =>
    cases h
    exact ⟨by simp, by simp⟩
  | cons path route ih =>
    simp only [List.mapM_cons, Option.bind_eq_bind, Option.bind_eq_some_iff, Option.pure_def,
      Option.some.injEq] at h
    obtain ⟨_, ⟨state, hstate, value, hvalue, rfl⟩, rest, hrest, rfl⟩ := h
    have hlegs := ih hrest
    constructor
    · rintro leg (_ | ⟨_, hmem⟩)
      · exact ⟨List.mem_cons_self, state, hstate, hvalue⟩
      · exact ⟨List.mem_cons_of_mem _ (hlegs.valued leg hmem).1, (hlegs.valued leg hmem).2⟩
    · rintro path' (_ | ⟨_, hmem⟩)
      · exact ⟨_, List.mem_cons_self, rfl⟩
      · obtain ⟨leg, hleg, heq⟩ := hlegs.complete path' hmem
        exact ⟨leg, List.mem_cons_of_mem _ hleg, heq⟩

theorem FeedStates.legValues_isSome_iff :
    (states.legValues now route).isSome ↔ states.Priced now route := by
  unfold FeedStates.legValues FeedStates.Priced
  induction route with
  | nil => simp
  | cons path route ih =>
    rw [List.forall_mem_cons, ← ih, List.mapM_cons]
    cases hstate : states.states[path.feed]? with
    | none => simp
    | some state =>
      have hvalue : (state.value now).isSome ↔ state.Priced now := FeedState.value_isSome_iff
      simp only [Option.some.injEq, exists_eq_left', ← hvalue, Option.bind_eq_bind, Option.bind_some]
      cases hv : state.value now with
      | none => simp
      | some value =>
        simp only [Option.bind_some, Option.isSome_some, true_and]
        cases List.mapM (fun leg : ComputationPath => (states.states[leg.feed]?).bind fun state =>
            (state.value now).bind fun value => some (leg, value)) route <;> rfl

theorem FeedStates.pricedRoute_of_findSome {pair : CrossPair}
    (h : pair.routes.findSome? (states.legValues now) = some legs) :
    ∃ route, states.pricedRoute now pair = some route ∧ states.legValues now route = some legs := by
  unfold FeedStates.pricedRoute
  generalize pair.routes = routes at h ⊢
  induction routes with
  | nil => cases h
  | cons route routes ih =>
    rw [List.findSome?_cons] at h
    rw [List.find?_cons]
    cases hroute : states.legValues now route with
    | some values =>
      have hpriced := FeedStates.legValues_isSome_iff.mp (Option.isSome_iff_exists.mpr ⟨values, hroute⟩)
      rw [hroute] at h
      exact ⟨route, by simp [hpriced], hroute.trans h⟩
    | none =>
      have hpriced : ¬states.Priced now route := fun hpriced => by
        have := FeedStates.legValues_isSome_iff.mpr hpriced
        rw [hroute] at this
        cases this
      rw [hroute] at h
      obtain ⟨found, hfound, hvalues⟩ := ih h
      exact ⟨found, by simpa [hpriced] using hfound, hvalues⟩

end Cross

section Accepts

open PriceNode

variable {registry : FeedRegistry} {feeds : FeedStates} {start now : UInt64} {events : List PriceEvent}
  {feed : UInt32} {state : FeedState} {pair : CrossPair} {data : PriceFeedData}

theorem mem_routed {definitions : List FeedDefinition} {pairs : List (UInt32 × CrossPair)}
    (h : FeedStates.routed registry definitions = some (.ok pairs)) (hpair : (feed, pair) ∈ pairs) :
    pair.definition ∈ definitions ∧ pair.definition.id = feed := by
  induction definitions generalizing pairs with
  | nil =>
    cases h
    cases hpair
  | cons definition definitions ih =>
    unfold FeedStates.routed at h
    obtain ⟨routes, -, h⟩ := Option.bind_eq_some_iff.mp h
    cases routes with
    | error error => cases h
    | ok routes =>
      obtain ⟨rest, hrest, h⟩ := Option.bind_eq_some_iff.mp h
      cases rest with
      | error error => cases h
      | ok rest =>
        cases h
        rcases List.mem_cons.mp hpair with heq | hmem
        · cases heq
          exact ⟨List.mem_cons_self, rfl⟩
        · obtain ⟨hmem, hid⟩ := ih hrest hmem
          exact ⟨List.mem_cons_of_mem _ hmem, hid⟩

theorem after_crossPairs (node : PriceNode) (events : List PriceEvent) :
    (node.after events).feeds.crossPairs = node.feeds.crossPairs := by
  induction events with
  | nil => rfl
  | cons event events ih => exact (step_crossPairs _ event).trans ih

/-- A Cross pair of a run is one of the registry's definitions, under its id. -/
theorem crossPair_definition (hnew : FeedStates.new registry = some (.ok feeds))
    (h : ((started feeds start).after events).feeds.crossPairs[feed]? = some pair) :
    pair.definition.id = feed ∧ ∃ definition, registry.get feed = some definition := by
  rw [after_crossPairs] at h
  unfold FeedStates.new at hnew
  obtain ⟨result, hrouted, hnew⟩ := Option.bind_eq_some_iff.mp hnew
  cases result with
  | error error => cases hnew
  | ok pairs =>
    cases hnew
    obtain ⟨hmem, hid⟩ := mem_routed hrouted (FeedStates.mem_of_collect h)
    refine ⟨hid, Option.isSome_iff_exists.mp (List.find?_isSome.mpr
      ⟨pair.definition, List.mem_of_mem_filter hmem, ?_⟩)⟩
    simp [hid]

/-- No feed that the value is taken from holds an observation that expires right now, and each
holds one that was not received later than clocks explain; a Cross pair is at the decimals of the
first definition of its id. -/
def FeedStates.Acceptable (registry : FeedRegistry) (states : FeedStates) (now : UInt64)
    (feed : UInt32) : Prop :=
  match states.crossPairs[feed]? with
  | none => ∀ state, states.states[feed]? = some state → state.Fine now
  | some pair =>
    (∀ definition, registry.get feed = some definition →
      pair.definition.decimals = definition.decimals) ∧
    ∀ route, states.pricedRoute now pair = some route → ∀ leg ∈ route, ∀ state,
      states.states[leg.feed]? = some state → state.Fine now

/-- A Direct feed's value. -/
theorem validate_direct_iff (hnew : FeedStates.new registry = some (.ok feeds))
    (hbuilt : ∀ event ∈ events, event.Built)
    (hstate : ((started feeds start).after events).feeds.states[feed]? = some state)
    (h : state.Valued now data) :
    PriceInstruction.validate data registry (some data) now = .ok () ↔ state.Fine now := by
  obtain ⟨hid, hregistry, -⟩ := record_after hnew hstate
  obtain ⟨definition, hdefinition, hdecimals⟩ := h.definition
  obtain ⟨hprice, hwindow⟩ := value_window hnew hbuilt hstate h
  rw [validate_self_iff (by rw [h.feedId, ← hregistry]; exact hdefinition) hprice hwindow,
    FeedState.fine_iff h]
  exact ⟨And.left, fun hfine => ⟨hfine, hdecimals⟩⟩

/-- A Cross pair's value: the clock must agree with the value of every leg. -/
theorem validate_cross_iff (hnew : FeedStates.new registry = some (.ok feeds))
    (hbuilt : ∀ event ∈ events, event.Built) {route : CrossRoute.Route} {legs : List CrossPrice.Leg}
    (hpair : ((started feeds start).after events).feeds.crossPairs[feed]? = some pair)
    (hlegs : LegsOf ((started feeds start).after events).feeds now route legs)
    (h : CrossPrice.Computed pair.definition legs data) :
    PriceInstruction.validate data registry (some data) now = .ok () ↔
      (∀ definition, registry.get feed = some definition →
        pair.definition.decimals = definition.decimals) ∧
      ∀ path ∈ route, ∀ state,
        ((started feeds start).after events).feeds.states[path.feed]? = some state →
          state.Fine now := by
  obtain ⟨hid, definition, hdefinition⟩ := crossPair_definition hnew hpair
  obtain ⟨⟨newest, hnewest, hreceivedEq⟩, hreceivedLe⟩ := h.receivedAt
  obtain ⟨⟨oldest, holdest, hvalidEq⟩, hvalidLe⟩ := h.validUntil
  have hwindow : data.validUntil.toNat ≤ data.receivedAt.toNat + validityWindow := by
    obtain ⟨-, state, hstate, hvalue⟩ := hlegs.valued newest hnewest
    have := (value_window hnew hbuilt hstate (FeedState.valued_of_value hvalue)).2
    have := UInt64.le_iff_toNat_le.mp (hvalidLe newest hnewest)
    rw [hreceivedEq]
    omega
  rw [validate_self_iff (by rw [h.feedId, hid]; exact hdefinition) h.positive hwindow, h.decimals,
    and_comm]
  refine and_congr ?_ ?_
  · constructor
    · intro hdecimals definition' hdefinition'
      rw [hdecimals, Option.some.inj (hdefinition.symm.trans hdefinition')]
    · exact fun hdecimals => hdecimals definition hdefinition
  · constructor
    · rintro ⟨hfresh, hahead⟩ path hpath state hstate
      obtain ⟨leg, hleg, rfl⟩ := hlegs.complete path hpath
      obtain ⟨-, state', hstate', hvalue⟩ := hlegs.valued leg hleg
      obtain rfl : state' = state := Option.some.inj (hstate'.symm.trans hstate)
      have hle := UInt64.le_iff_toNat_le.mp (hreceivedLe leg hleg)
      exact (FeedState.fine_iff (FeedState.valued_of_value hvalue)).mpr
        ⟨UInt64.lt_of_lt_of_le hfresh (hvalidLe leg hleg), hle.trans hahead⟩
    · intro hfine
      have hleg (leg : CrossPrice.Leg) (hleg : leg ∈ legs) :
          now < leg.2.validUntil ∧ leg.2.receivedAt.toNat ≤ now.toNat + maxClockSkew := by
        obtain ⟨hpath, state, hstate, hvalue⟩ := hlegs.valued leg hleg
        exact (FeedState.fine_iff (FeedState.valued_of_value hvalue)).mp (hfine _ hpath state hstate)
      exact ⟨hvalidEq ▸ (hleg oldest holdest).1, hreceivedEq ▸ (hleg newest hnewest).2⟩

/-- In every run and at every time, a node takes the value it has for a feed exactly where the
feeds behind it are fine. -/
theorem validate_own_iff (hnew : FeedStates.new registry = some (.ok feeds))
    (hbuilt : ∀ event ∈ events, event.Built)
    (hvalue : ((started feeds start).after events).feeds.value now feed = some data) :
    PriceInstruction.validate data registry (some data) now = .ok () ↔
      ((started feeds start).after events).feeds.Acceptable registry now feed := by
  unfold FeedStates.value at hvalue
  unfold FeedStates.Acceptable
  cases hpair : ((started feeds start).after events).feeds.crossPairs[feed]? with
  | none =>
    rw [hpair] at hvalue
    obtain ⟨state, hstate, hvalue⟩ := Option.bind_eq_some_iff.mp hvalue
    rw [validate_direct_iff hnew hbuilt hstate (FeedState.valued_of_value hvalue), hstate]
    exact ⟨fun hfine state' heq => Option.some.inj heq ▸ hfine, fun hfine => hfine state rfl⟩
  | some pair =>
    rw [hpair] at hvalue
    obtain ⟨legs, hfound, hcompute⟩ := Option.bind_eq_some_iff.mp hvalue
    obtain ⟨route, hroute, hlegs⟩ := FeedStates.pricedRoute_of_findSome hfound
    have hcomputed : CrossPrice.compute pair.definition legs = .ok data := by
      cases hresult : CrossPrice.compute pair.definition legs with
      | error failure =>
        rw [hresult] at hcompute
        cases hcompute
      | ok data' =>
        rw [hresult] at hcompute
        cases hcompute
        rfl
    rw [validate_cross_iff hnew hbuilt hpair (FeedStates.legsOf_legValues hlegs)
      (CrossPrice.computed_of_ok hcomputed)]
    simp only [hroute, Option.some.injEq, forall_eq']

end Accepts

section Boundary

open PriceNode

/-- What a source of LBTC/USD answers. -/
def lbtcObservation : SourceObservation := .new 6000000000000 8 1700000000 1700000000

/-- A node whose source of LBTC/USD was polled once. -/
def polledOnce : PriceNode := (started supportedStates 1700000000).after
  [.pollEnds 0 0 (.ok lbtcObservation), .pollBegins 0 0]

def lbtcUsdState : FeedState :=
  (FeedState.new (.new 0 .lbtc .usd .direct) .default).recordPollSuccess 0 lbtcObservation

theorem polledOnce_state : polledOnce.feeds.states[(0 : UInt32)]? = some lbtcUsdState := by
  have hpollable : (FeedState.new (.new 0 .lbtc .usd .direct) .default).isPollable 1700000000 0 = true := by
    simp [FeedState.isPollable, FeedState.new]
  have hbegun : (started supportedStates 1700000000).step (.pollBegins 0 0) =
      ⟨supportedStates, 1700000000, [(0, 0)]⟩ := by
    simp only [step, started, supportedStates_lbtc_usd, Option.any_some, hpollable, if_true]
  have hended : polledOnce =
      (⟨supportedStates, 1700000000, [(0, 0)]⟩ : PriceNode).step (.pollEnds 0 0 (.ok lbtcObservation)) := by
    rw [← hbegun]
    rfl
  have hstate : ((FeedState.new (.new 0 .lbtc .usd .direct) .default).pollEnded 1700000000 0
      (.ok lbtcObservation)).1 = lbtcUsdState := by
    have hlast : (FeedState.new (.new 0 .lbtc .usd .direct) .default).lastObservedAt 0 = none := by
      simp [FeedState.lastObservedAt, FeedState.new]
    have hvalid : PriceSource.validate lbtcObservation none = .ok () := by decide +kernel
    simp only [FeedState.pollEnded, hlast, hvalid]
    rfl
  rw [hended, step, if_pos (List.mem_singleton_self _)]
  dsimp only
  rw [FeedStates.getElem?_modify, if_pos rfl, supportedStates_lbtc_usd, Option.map_some, hstate]

theorem polledOnce_crossPairs : polledOnce.feeds.crossPairs[(0 : UInt32)]? = none := by
  have hother (key : UInt32) (h : key ≠ 0) : ¬compare key (0 : UInt32) = .eq :=
    mt Std.LawfulEqCmp.eq_of_compare h
  unfold polledOnce
  rw [after_crossPairs]
  simp only [started, supportedStates, FeedStates.collect, List.foldl_cons, List.foldl_nil,
    Std.ExtTreeMap.getElem?_insert]
  rw [if_neg (hother 6 (by decide)), if_neg (hother 5 (by decide)), if_neg (hother 4 (by decide))]
  simp

theorem polledOnce_value : polledOnce.feeds.value 1700000300 0 =
    some ⟨0, 6000000000000, 8, 1700000000, 1700000300⟩ := by
  have hvalue : lbtcUsdState.value 1700000300 =
      some ⟨0, 6000000000000, 8, 1700000000, 1700000300⟩ := by
    decide +kernel
  simp only [FeedStates.value, polledOnce_crossPairs, polledOnce_state, Option.bind_eq_bind,
    Option.bind_some, hvalue]

theorem polledOnce_built : ∀ event ∈ ([.pollEnds 0 0 (.ok lbtcObservation), .pollBegins 0 0] :
    List PriceEvent), event.Built := by
  rintro event hevent feed source obs rfl
  rcases List.mem_cons.mp hevent with heq | hmem
  · cases heq
    exact ⟨_, _, _, _, rfl⟩
  · cases List.mem_singleton.mp hmem

theorem validate_own_iff_polledOnce :
    PriceInstruction.validate ⟨0, 6000000000000, 8, 1700000000, 1700000300⟩ .default
        (some ⟨0, 6000000000000, 8, 1700000000, 1700000300⟩) 1700000300 = .ok () ↔
      polledOnce.feeds.Acceptable .default 1700000300 0 :=
  validate_own_iff new_default polledOnce_built polledOnce_value

/-- In the second in which its observation expires the node holds a value and refuses it. -/
theorem own_value_refused :
    polledOnce.feeds.value 1700000300 0 = some ⟨0, 6000000000000, 8, 1700000000, 1700000300⟩ ∧
    PriceInstruction.validate ⟨0, 6000000000000, 8, 1700000000, 1700000300⟩ .default
      (some ⟨0, 6000000000000, 8, 1700000000, 1700000300⟩) 1700000300 = .error .stale :=
  ⟨polledOnce_value, by decide +kernel⟩

end Boundary

end PriceOracle
