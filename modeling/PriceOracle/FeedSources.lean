import PriceOracle.FeedStates

/-!
# The sources of a node's feeds

A node polls its sources side by side: a poll looks at the state when it begins, waits without
the lock, and is judged by the state as it is when it ends. What a source's record becomes is
determined by the calls that were made on it, in their order, and by nothing else.
-/

namespace PriceOracle

/-- What is done to the record of a source. -/
inductive SourceCall where
  | failed (now : UInt64)
  | succeeded (obs : SourceObservation)
  | frozen
  | unfrozen

namespace SourceRecord

def call : SourceCall → SourceRecord → SourceRecord
  | .failed now => pollFailed now
  | .succeeded obs => pollSucceeded obs
  | .frozen => freeze
  | .unfrozen => unfreeze

/-- The record after some calls, the latest first. -/
def after : List SourceCall → SourceRecord
  | [] => fresh
  | call :: calls => (after calls).call call

end SourceRecord

section History

/-- The latest of the freezes and unfreezes was a freeze. -/
def Frozen : List SourceCall → Prop
  | [] => False
  | .frozen :: _ => True
  | .unfrozen :: _ => False
  | _ :: calls => Frozen calls

instance : DecidablePred Frozen := fun calls => by
  induction calls with
  | nil => exact instDecidableFalse
  | cons call calls ih => cases call <;> first | exact ih | exact instDecidableTrue | exact instDecidableFalse

/-- The failures since the latest success or unfreeze. -/
def failuresSince : List SourceCall → ℕ
  | [] => 0
  | .failed _ :: calls => failuresSince calls + 1
  | .succeeded _ :: _ => 0
  | .frozen :: calls => failuresSince calls
  | .unfrozen :: _ => 0

/-- The failure drops the source: it is recorded, and it is not one of the first four. -/
def Drops (calls : List SourceCall) : Prop :=
  ¬Frozen calls ∧ maxPollingErrorNum ≤ failuresSince calls + 1

instance : DecidablePred Drops := fun _ => inferInstanceAs (Decidable (_ ∧ _))

/-- The observations recorded since the source was last dropped, the latest first. -/
def recordedSince : List SourceCall → List SourceObservation
  | [] => []
  | .failed _ :: calls => if Drops calls then [] else recordedSince calls
  | .succeeded obs :: calls => if Frozen calls then recordedSince calls else obs :: recordedSince calls
  | .frozen :: calls => recordedSince calls
  | .unfrozen :: calls => recordedSince calls

/-- Every success was judged against the observation held before it. -/
def Judged : List SourceCall → Prop
  | [] => True
  | .succeeded obs :: calls =>
    PriceSource.validate obs ((SourceRecord.after calls).observation.map SourceObservation.observedAt) =
      .ok () ∧ Judged calls
  | _ :: calls => Judged calls

/-- What a source's record is after some calls on it. -/
structure Follows (calls : List SourceCall) (record : SourceRecord) : Prop where
  frozen : record.state = .frozen ↔ Frozen calls
  failures : ¬Frozen calls → record.failures.toNat = min (failuresSince calls) (2 ^ 32 - 1)
  dropped : ¬Frozen calls → (record.state = .dropped ↔ maxPollingErrorNum ≤ failuresSince calls)
  retry : record.state = .dropped → record.observation = none ∧ ∃ now earlier,
    calls = .failed now :: earlier ∧ record.retryAt = some (saturatingAddU64 now pollingRetryTime)
  observation : record.observation = (recordedSince calls).head?

open SourceRecord

variable {calls : List SourceCall} {record : SourceRecord} {now : UInt64} {obs : SourceObservation}

theorem toNat_oneMore (failures : UInt32) :
    (oneMore failures).toNat = min (failures.toNat + 1) (2 ^ 32 - 1) :=
  UInt32.toNat_ofNat_of_lt' (lt_of_le_of_lt (min_le_right _ _) (by decide))

theorem pollFailed_of_frozen (h : record.state = .frozen) : pollFailed now record = record :=
  if_pos h

theorem pollSucceeded_of_frozen (h : record.state = .frozen) : pollSucceeded obs record = record :=
  if_pos h

theorem pollFailed_eq (h : record.state ≠ .frozen) : pollFailed now record =
    if maxPollingErrorNum ≤ record.failures.toNat + 1 then
      ⟨.dropped, oneMore record.failures, none, some (saturatingAddU64 now pollingRetryTime)⟩
    else { record with failures := oneMore record.failures } := by
  have hfailures := toNat_oneMore record.failures
  unfold pollFailed
  rw [if_neg h]
  dsimp only
  by_cases hmany : maxPollingErrorNum ≤ record.failures.toNat + 1
  · rw [if_pos hmany, if_pos (by rw [hfailures]; unfold maxPollingErrorNum at *; omega)]
  · rw [if_neg hmany, if_neg (by rw [hfailures]; unfold maxPollingErrorNum at *; omega)]

/-- A failure is ignored by a frozen source, and drops one that failed often enough. -/
theorem Follows.failed (h : Follows calls record) :
    Follows (.failed now :: calls) (pollFailed now record) := by
  by_cases hfrozen : Frozen calls
  · have hstate := h.frozen.mpr hfrozen
    rw [pollFailed_of_frozen hstate]
    refine ⟨h.frozen, fun hnot => absurd hfrozen hnot, fun hnot => absurd hfrozen hnot, ?_, ?_⟩
    · rw [hstate]
      rintro ⟨⟩
    · have hdrops : ¬Drops calls := fun hdrops => hdrops.1 hfrozen
      rw [recordedSince, if_neg hdrops]
      exact h.observation
  · have hstate := mt h.frozen.mp hfrozen
    have hfailures := h.failures hfrozen
    have hcount := toNat_oneMore record.failures
    have hdropped := h.dropped hfrozen
    rw [pollFailed_eq hstate]
    by_cases hmany : maxPollingErrorNum ≤ record.failures.toNat + 1
    · have hdrops : Drops calls := ⟨hfrozen, by unfold maxPollingErrorNum at *; omega⟩
      rw [if_pos hmany]
      refine ⟨iff_of_false (by rintro ⟨⟩) hfrozen, fun _ => ?_, fun _ => ?_, fun _ => ?_, ?_⟩
      · dsimp only [failuresSince]
        omega
      · exact iff_of_true rfl hdrops.2
      · exact ⟨rfl, now, calls, rfl, rfl⟩
      · rw [recordedSince, if_pos hdrops]
        rfl
    · have hdrops : ¬Drops calls := fun hdrops => hmany (by
        have := hdrops.2
        unfold maxPollingErrorNum at *
        omega)
      have hactive : record.state ≠ .dropped := mt hdropped.mp (by
        unfold maxPollingErrorNum at *
        omega)
      rw [if_neg hmany]
      refine ⟨h.frozen, fun _ => ?_, fun _ => ?_, fun hdrop => absurd hdrop hactive, ?_⟩
      · dsimp only [failuresSince]
        omega
      · dsimp only [failuresSince]
        exact iff_of_false hactive (by unfold maxPollingErrorNum at *; omega)
      · rw [recordedSince, if_neg hdrops]
        exact h.observation

/-- A success is ignored by a frozen source, and is a fresh start for any other. -/
theorem Follows.succeeded (h : Follows calls record) :
    Follows (.succeeded obs :: calls) (pollSucceeded obs record) := by
  by_cases hfrozen : Frozen calls
  · have hstate := h.frozen.mpr hfrozen
    rw [pollSucceeded_of_frozen hstate]
    refine ⟨h.frozen, fun hnot => absurd hfrozen hnot, fun hnot => absurd hfrozen hnot, ?_, ?_⟩
    · rw [hstate]
      rintro ⟨⟩
    · rw [recordedSince, if_pos hfrozen]
      exact h.observation
  · have hstate := mt h.frozen.mp hfrozen
    rw [pollSucceeded, if_neg hstate]
    refine ⟨iff_of_false (by rintro ⟨⟩) hfrozen, fun _ => rfl, fun _ => ?_, (by rintro ⟨⟩), ?_⟩
    · exact iff_of_false (by rintro ⟨⟩) (by simp [failuresSince, maxPollingErrorNum])
    · rw [recordedSince, if_neg hfrozen]
      rfl

theorem Follows.frozen' (h : Follows calls record) : Follows (.frozen :: calls) record.freeze :=
  ⟨iff_of_true rfl trivial, fun hnot => absurd trivial hnot, fun hnot => absurd trivial hnot,
    (by rintro ⟨⟩), h.observation⟩

theorem Follows.unfrozen (h : Follows calls record) : Follows (.unfrozen :: calls) record.unfreeze :=
  ⟨iff_of_false (by rintro ⟨⟩) id, fun _ => rfl,
    fun _ => iff_of_false (by rintro ⟨⟩) (by simp [failuresSince, maxPollingErrorNum]),
    (by rintro ⟨⟩), h.observation⟩

theorem follows_after (calls : List SourceCall) : Follows calls (after calls) := by
  induction calls with
  | nil =>
    exact ⟨iff_of_false (by rintro ⟨⟩) id, fun _ => rfl,
      fun _ => iff_of_false (by rintro ⟨⟩) (by decide), (by rintro ⟨⟩), rfl⟩
  | cons call calls ih =>
    cases call with
    | failed now => exact ih.failed
    | succeeded obs => exact ih.succeeded
    | frozen => exact ih.frozen'
    | unfrozen => exact ih.unfrozen

/-- What is recorded between two drops is observed later and later. -/
theorem recordedSince_increasing (h : Judged calls) :
    (recordedSince calls).Pairwise fun later earlier => earlier.observedAt < later.observedAt := by
  induction calls with
  | nil => exact List.Pairwise.nil
  | cons call calls ih =>
    cases call with
    | failed now =>
      rw [recordedSince]
      split_ifs
      · exact List.Pairwise.nil
      · exact ih h
    | succeeded obs =>
      obtain ⟨hvalid, hrest⟩ := h
      have hsorted := ih hrest
      rw [recordedSince]
      split_ifs with hfrozen
      · exact hsorted
      · have hlast := (PriceSource.validate_ok_iff.mp hvalid).2.2.2
        rw [(follows_after calls).observation] at hlast
        refine List.pairwise_cons.mpr ⟨fun older hmem => ?_, hsorted⟩
        -- The newest of the earlier ones is the one it was judged against.
        cases hrecorded : recordedSince calls with
        | nil =>
          rw [hrecorded] at hmem
          cases hmem
        | cons newest others =>
          rw [hrecorded] at hlast hmem hsorted
          have hnewest : newest.observedAt < obs.observedAt := hlast _ rfl
          rcases List.mem_cons.mp hmem with rfl | hmem
          · exact hnewest
          · exact UInt64.lt_trans (List.rel_of_pairwise_cons hsorted hmem) hnewest
    | frozen => exact ih h
    | unfrozen => exact ih h

end History

/-- A node's feeds, with its clock and the polls that wait for an answer. -/
structure PriceNode where
  feeds : FeedStates
  now : UInt64
  polling : List (UInt32 × ℕ)

/-- What happens at a node: its clock moves, a poll looks at the state, a poll is answered, and
its operator disables and enables sources. -/
inductive PriceEvent where
  | clock (now : UInt64)
  | pollBegins (feed : UInt32) (source : ℕ)
  | pollEnds (feed : UInt32) (source : ℕ) (answer : Except ConnectionError SourceObservation)
  | freeze (feed : UInt32) (source : ℕ)
  | unfreeze (feed : UInt32) (source : ℕ)

/-- The source an event is about. -/
def PriceEvent.source : PriceEvent → Option (UInt32 × ℕ)
  | .clock _ => none
  | .pollBegins feed source => some (feed, source)
  | .pollEnds feed source _ => some (feed, source)
  | .freeze feed source => some (feed, source)
  | .unfreeze feed source => some (feed, source)

namespace PriceNode

def step (node : PriceNode) : PriceEvent → PriceNode
  | .clock now => { node with now }
  | .pollBegins feed source =>
    if node.feeds.states[feed]?.any fun state => state.isPollable node.now source then
      { node with polling := (feed, source) :: node.polling }
    else node
  | .pollEnds feed source answer =>
    if (feed, source) ∈ node.polling then
      { node with
        feeds := node.feeds.modify feed fun state => (state.pollEnded node.now source answer).1
        polling := node.polling.erase (feed, source) }
    else node
  | .freeze feed source =>
    { node with feeds := node.feeds.modify feed fun state => state.freeze source }
  | .unfreeze feed source =>
    { node with feeds := node.feeds.modify feed fun state => state.unfreeze source }

/-- The node after some events, the latest first. -/
def after (node : PriceNode) : List PriceEvent → PriceNode
  | [] => node
  | event :: events => (node.after events).step event

end PriceNode

namespace FeedState

/-- The call that the end of a poll makes on its source. -/
def answered (feed : FeedState) (now : UInt64) (source : ℕ) :
    Except ConnectionError SourceObservation → Option SourceCall
  | .ok obs =>
    match PriceSource.validate obs (feed.lastObservedAt source) with
    | .ok () => some (.succeeded obs)
    | .error .staleObservation => none
    | .error _ => some (.failed now)
  | .error _ => some (.failed now)

/-- The call that an event makes on a source of this feed. -/
def callOf (state : FeedState) (node : PriceNode) (feed : UInt32) (source : ℕ) :
    PriceEvent → Option SourceCall
  | .pollEnds feed' source' answer =>
    if (feed', source') = (feed, source) ∧ (feed, source) ∈ node.polling then
      state.answered node.now source answer
    else none
  | .freeze feed' source' => if (feed', source') = (feed, source) then some .frozen else none
  | .unfreeze feed' source' => if (feed', source') = (feed, source) then some .unfrozen else none
  | _ => none

end FeedState

/-- The calls made on a source while some events happened, the latest first. -/
def PriceNode.calls (node : PriceNode) (feed : UInt32) (source : ℕ) : List PriceEvent → List SourceCall
  | [] => []
  | event :: events =>
    ((node.after events).feeds.states[feed]?.bind fun state =>
      state.callOf (node.after events) feed source event).toList ++ node.calls feed source events

namespace FeedState

variable {feed : FeedState} {now : UInt64} {source other : ℕ}
  {answer : Except ConnectionError SourceObservation}

/-- The end of a poll makes one call on its source, or none. -/
theorem pollEnded_eq : (feed.pollEnded now source answer).1 =
    match feed.answered now source answer with
    | none => feed
    | some call => feed.modify source (.call call) := by
  unfold pollEnded answered
  cases answer with
  | error error => rfl
  | ok obs =>
    dsimp only
    cases PriceSource.validate obs (feed.lastObservedAt source) with
    | ok => rfl
    | error reason => cases reason <;> rfl

/-- A poll records a success that was judged against what is held, or a failure. -/
theorem answered_cases {call : SourceCall} (h : feed.answered now source answer = some call) :
    call = .failed now ∨ ∃ obs, call = .succeeded obs ∧ answer = .ok obs ∧
      PriceSource.validate obs ((feed.record source).observation.map SourceObservation.observedAt) =
        .ok () := by
  unfold answered at h
  cases answer with
  | error error =>
    cases h
    exact .inl rfl
  | ok obs =>
    dsimp only at h
    cases hvalid : PriceSource.validate obs (feed.lastObservedAt source) with
    | error reason =>
      rw [hvalid] at h
      cases reason <;> cases h <;> exact .inl rfl
    | ok =>
      rw [hvalid] at h
      cases h
      exact .inr ⟨obs, rfl, rfl, by rwa [← lastObservedAt_eq]⟩

theorem callOf_pollEnds {node : PriceNode} {id id' : UInt32} {call : SourceCall}
    (h : feed.callOf node id source (.pollEnds id' other answer) = some call) :
    feed.answered node.now source answer = some call := by
  simp only [callOf] at h
  split_ifs at h
  exact h

theorem callOf_succeeded {node : PriceNode} {id : UInt32} {event : PriceEvent}
    {obs : SourceObservation} (h : feed.callOf node id source event = some (.succeeded obs)) :
    (∃ id' other, event = .pollEnds id' other (.ok obs)) ∧
      PriceSource.validate obs ((feed.record source).observation.map SourceObservation.observedAt) =
        .ok () := by
  cases event with
  | pollEnds id' other answer =>
    rcases answered_cases (callOf_pollEnds h) with heq | ⟨obs', heq, rfl, hvalid⟩
    · cases heq
    · cases heq
      exact ⟨⟨id', other, rfl⟩, hvalid⟩
  | freeze id' other =>
    simp only [callOf] at h
    split_ifs at h
    cases h
  | unfreeze id' other =>
    simp only [callOf] at h
    split_ifs at h
    cases h
  | clock now => cases h
  | pollBegins id' other => cases h

end FeedState

namespace PriceNode

variable {node : PriceNode} {feed : UInt32} {state : FeedState} {source : ℕ} {event : PriceEvent}

/-- What an event does to a feed: the call that it makes on the source it is about. -/
structure Stepped (node : PriceNode) (feed : UInt32) (event : PriceEvent) (state state' : FeedState) :
    Prop where
  definition : state'.definition = state.definition
  registry : state'.registry = state.registry
  called : ∀ source, state'.record source =
    (state.callOf node feed source event).elim (state.record source) fun call =>
      (state.record source).call call
  others : ∀ source, event.source ≠ some (feed, source) →
    state'.sources[source]? = state.sources[source]?

theorem stepped_refl (h : ∀ source, state.callOf node feed source event = none) :
    Stepped node feed event state state :=
  ⟨rfl, rfl, fun source => by rw [h source]; rfl, fun _ _ => rfl⟩

theorem stepped_modify {call : SourceCall} (hsource : event.source = some (feed, source))
    (hcall : state.callOf node feed source event = some call)
    (hothers : ∀ other, source ≠ other → state.callOf node feed other event = none) :
    Stepped node feed event state (state.modify source (.call call)) := by
  refine ⟨rfl, rfl, fun other => ?_, fun other hother => ?_⟩
  · by_cases heq : source = other
    · subst heq
      rw [FeedState.record_modify_self, hcall]
      rfl
    · rw [FeedState.record_modify_of_ne _ heq, hothers other heq]
      rfl
  · refine FeedState.getElem?_modify_of_ne _ fun heq => hother ?_
    rw [hsource, heq]

/-- One event makes one call at most, and on no source but the one it is about. -/
theorem step_stepped (h : node.feeds.states[feed]? = some state) (event : PriceEvent) :
    ∃ state', (node.step event).feeds.states[feed]? = some state' ∧
      Stepped node feed event state state' := by
  cases event with
  | clock now => exact ⟨state, h, stepped_refl fun _ => rfl⟩
  | pollBegins feed' source' =>
    refine ⟨state, ?_, stepped_refl fun _ => rfl⟩
    unfold step
    dsimp only
    split_ifs <;> exact h
  | pollEnds feed' source' answer =>
    unfold step
    dsimp only
    by_cases hpolling : (feed', source') ∈ node.polling
    · rw [if_pos hpolling, FeedStates.getElem?_modify]
      by_cases hfeed : feed' = feed
      · subst hfeed
        rw [if_pos rfl, h, Option.map_some, FeedState.pollEnded_eq]
        refine ⟨_, rfl, ?_⟩
        have hcall : state.callOf node feed' source' (.pollEnds feed' source' answer) =
            state.answered node.now source' answer := if_pos ⟨rfl, hpolling⟩
        have hothers (other : ℕ) (hne : source' ≠ other) :
            state.callOf node feed' other (.pollEnds feed' source' answer) = none :=
          if_neg fun heq => hne (by simpa using heq.1)
        cases hanswered : state.answered node.now source' answer with
        | none =>
          refine stepped_refl fun source => ?_
          by_cases hsource : source' = source
          · rw [← hsource, hcall, hanswered]
          · exact hothers source hsource
        | some call => exact stepped_modify rfl (hcall.trans hanswered) hothers
      · rw [if_neg hfeed]
        refine ⟨state, h, stepped_refl fun source => if_neg fun heq => hfeed ?_⟩
        exact (Prod.mk.inj heq.1).1
    · rw [if_neg hpolling]
      refine ⟨state, h, stepped_refl fun source => if_neg ?_⟩
      rintro ⟨heq, hmem⟩
      exact hpolling (heq ▸ hmem)
  | freeze feed' source' =>
    unfold step
    dsimp only
    rw [FeedStates.getElem?_modify]
    by_cases hfeed : feed' = feed
    · subst hfeed
      rw [if_pos rfl, h, Option.map_some]
      have hcall : state.callOf node feed' source' (.freeze feed' source') = some .frozen := if_pos rfl
      exact ⟨_, rfl, stepped_modify rfl hcall fun other hne =>
        if_neg fun heq => hne (Prod.mk.inj heq).2⟩
    · rw [if_neg hfeed]
      exact ⟨state, h, stepped_refl fun source => if_neg fun heq => hfeed (Prod.mk.inj heq).1⟩
  | unfreeze feed' source' =>
    unfold step
    dsimp only
    rw [FeedStates.getElem?_modify]
    by_cases hfeed : feed' = feed
    · subst hfeed
      rw [if_pos rfl, h, Option.map_some]
      have hcall : state.callOf node feed' source' (.unfreeze feed' source') = some .unfrozen := if_pos rfl
      exact ⟨_, rfl, stepped_modify rfl hcall fun other hne =>
        if_neg fun heq => hne (Prod.mk.inj heq).2⟩
    · rw [if_neg hfeed]
      exact ⟨state, h, stepped_refl fun source => if_neg fun heq => hfeed (Prod.mk.inj heq).1⟩

/-- An event changes one feed at most. -/
theorem step_feeds (node : PriceNode) (event : PriceEvent) : (node.step event).feeds = node.feeds ∨
    ∃ feed change, (node.step event).feeds = node.feeds.modify feed change := by
  cases event with
  | clock now => exact .inl rfl
  | pollBegins feed source =>
    unfold step
    dsimp only
    split_ifs <;> exact .inl rfl
  | pollEnds feed source answer =>
    unfold step
    dsimp only
    split_ifs
    · exact .inr ⟨feed, _, rfl⟩
    · exact .inl rfl
  | freeze feed source => exact .inr ⟨feed, _, rfl⟩
  | unfreeze feed source => exact .inr ⟨feed, _, rfl⟩

/-- No event adds a feed. -/
theorem exists_before (h : (node.step event).feeds.states[feed]? = some state) :
    ∃ before, node.feeds.states[feed]? = some before := by
  rcases step_feeds node event with heq | ⟨feed', change, heq⟩
  · exact ⟨state, by rw [← heq, h]⟩
  · rw [heq, FeedStates.getElem?_modify] at h
    split_ifs at h with hfeed
    · obtain ⟨before, hbefore, -⟩ := Option.map_eq_some_iff.mp h
      exact ⟨before, hfeed ▸ hbefore⟩
    · exact ⟨state, h⟩

/-- Cross pairs are fixed. -/
theorem step_crossPairs (node : PriceNode) (event : PriceEvent) :
    (node.step event).feeds.crossPairs = node.feeds.crossPairs := by
  rcases step_feeds node event with heq | ⟨feed, change, heq⟩ <;> rw [heq]
  rfl

end PriceNode

section Runs

open PriceNode

variable {registry : FeedRegistry} {feeds : FeedStates} {start : UInt64} {events : List PriceEvent}
  {feed : UInt32} {state : FeedState}

/-- A node whose feeds are new. -/
def PriceNode.started (feeds : FeedStates) (now : UInt64) : PriceNode := ⟨feeds, now, []⟩

/-- A new feed has no sources, and is a Direct feed of the registry under its id. -/
theorem new_states (hnew : FeedStates.new registry = some (.ok feeds))
    (h : feeds.states[feed]? = some state) :
    ∃ definition ∈ registry.feeds, definition.id = feed ∧ state = FeedState.new definition registry := by
  unfold FeedStates.new at hnew
  obtain ⟨result, -, hnew⟩ := Option.bind_eq_some_iff.mp hnew
  cases result with
  | error error => cases hnew
  | ok pairs =>
    cases hnew
    obtain ⟨definition, hmem, heq⟩ := List.mem_map.mp (FeedStates.mem_of_collect h)
    cases heq
    exact ⟨definition, List.mem_of_mem_filter hmem, rfl, rfl⟩

/-- Throughout a run the record of every source is what the calls on it make of it, and every
success was judged against the observation held before. -/
theorem record_after (hnew : FeedStates.new registry = some (.ok feeds))
    (h : ((started feeds start).after events).feeds.states[feed]? = some state) :
    state.definition.id = feed ∧ state.registry = registry ∧
    (∃ definition, registry.get feed = some definition) ∧
    ∀ source, state.record source = SourceRecord.after ((started feeds start).calls feed source events) ∧
      Judged ((started feeds start).calls feed source events) := by
  induction events generalizing state with
  | nil =>
    obtain ⟨definition, hmem, hid, rfl⟩ := new_states hnew h
    refine ⟨hid, rfl, ?_, fun source => ⟨?_, trivial⟩⟩
    · refine Option.isSome_iff_exists.mp (List.find?_isSome.mpr ⟨definition, hmem, ?_⟩)
      simp [hid]
    · simp [FeedState.record, FeedState.new, PriceNode.calls, SourceRecord.after]
  | cons event events ih =>
    obtain ⟨before, hbefore⟩ := exists_before h
    obtain ⟨hid, hregistry, hdefinition, hrecord⟩ := ih hbefore
    obtain ⟨state', hstate', hstepped⟩ := step_stepped hbefore event
    obtain rfl : state' = state := Option.some.inj (hstate'.symm.trans h)
    refine ⟨by rw [hstepped.definition, hid], by rw [hstepped.registry, hregistry], hdefinition,
      fun source => ?_⟩
    obtain ⟨heq, hjudged⟩ := hrecord source
    unfold PriceNode.calls
    rw [hstepped.called source, hbefore, Option.bind_some]
    cases hcall : before.callOf ((started feeds start).after events) feed source event with
    | none => exact ⟨heq, hjudged⟩
    | some call =>
      refine ⟨by simp [SourceRecord.after, heq], ?_⟩
      cases call with
      | failed now => exact hjudged
      | frozen => exact hjudged
      | unfrozen => exact hjudged
      | succeeded obs =>
        have hvalid := (FeedState.callOf_succeeded hcall).2
        rw [heq] at hvalid
        exact ⟨hvalid, hjudged⟩

/-- A dropped source is polled again from its retry time on. -/
theorem isPollable_of_dropped {source : ℕ} {time : UInt64}
    (hdropped : (state.record source).state = .dropped)
    (hretry : (state.record source).retryAt = some time) (now : UInt64) :
    state.isPollable now source = true ↔ time ≤ now := by
  unfold FeedState.record at hdropped hretry
  unfold FeedState.isPollable
  cases hsource : state.sources[source]? with
  | none =>
    rw [hsource] at hdropped
    cases hdropped
  | some record =>
    rw [hsource] at hdropped hretry
    simp only [Option.getD_some] at hdropped hretry
    simp [hdropped, hretry]

/-- What holds of a feed of a node, whatever happened to its sources. -/
theorem sources_follow_calls (hnew : FeedStates.new registry = some (.ok feeds))
    (hstate : ((started feeds start).after events).feeds.states[feed]? = some state) :
    (∀ source, state.state source = (state.record source).state ∧
      Follows ((started feeds start).calls feed source events) (state.record source) ∧
      (recordedSince ((started feeds start).calls feed source events)).Pairwise
        (fun later earlier => earlier.observedAt < later.observedAt) ∧
      ((state.record source).state = .dropped → ∃ time, (state.record source).retryAt = some time ∧
        ∀ now, state.isPollable now source = true ↔ time ≤ now)) ∧
    (∀ event, ∃ state', (((started feeds start).after events).step event).feeds.states[feed]? = some state' ∧
      (∀ source, event.source ≠ some (feed, source) →
        state'.sources[source]? = state.sources[source]?) ∧
      ∀ source answer, event = .pollEnds feed source answer → state.state source = .frozen →
        state'.record source = state.record source) ∧
    (∃ definition, registry.get feed = some definition ∧
      ((∀ obs, state.Holds obs → obs.decimals = definition.decimals) →
        ∀ now, (state.value now).isSome ↔
          state.SomeActive ∧ ∃ obs, state.Holds obs ∧ now ≤ obs.validUntil)) := by
  obtain ⟨hid, hregistry, ⟨definition, hdefinition⟩, hrecord⟩ := record_after hnew hstate
  refine ⟨fun source => ?_, fun event => ?_, definition, hdefinition, fun hdecimals now => ?_⟩
  · obtain ⟨heq, hjudged⟩ := hrecord source
    have hfollows : Follows ((started feeds start).calls feed source events) (state.record source) := by
      rw [heq]
      exact follows_after _
    refine ⟨FeedState.state_eq, hfollows, recordedSince_increasing hjudged, fun hdropped => ?_⟩
    obtain ⟨-, now, _, -, hretry⟩ := hfollows.retry hdropped
    exact ⟨_, hretry, isPollable_of_dropped hdropped hretry⟩
  · obtain ⟨state', hstate', hstepped⟩ := step_stepped hstate event
    refine ⟨state', hstate', hstepped.others, fun source answer hevent hfrozen => ?_⟩
    rw [hstepped.called source]
    rw [FeedState.state_eq] at hfrozen
    subst hevent
    cases hcall : state.callOf ((started feeds start).after events) feed source
        (.pollEnds feed source answer) with
    | none => rfl
    | some call =>
      rcases FeedState.answered_cases (FeedState.callOf_pollEnds hcall) with rfl | ⟨obs, rfl, -⟩
      · exact pollFailed_of_frozen hfrozen
      · exact pollSucceeded_of_frozen hfrozen
  · rw [FeedState.value_isSome_iff, hid, hregistry]
    constructor
    · exact fun h => ⟨h.1, h.2.1⟩
    · rintro ⟨hactive, hobs⟩
      exact ⟨hactive, hobs, definition, hdefinition, fun obs hheld _ => hdecimals obs hheld⟩

/-- The feeds of a node with the supported feeds, before any poll. -/
def supportedStates : FeedStates where
  states := FeedStates.collect (([.new 0 .lbtc .usd .direct, .new 1 .usdt .usd .direct,
    .new 2 .eurx .usd .direct, .new 3 .depix .usd .direct, .new 7 .usdc .usd .direct] :
      List FeedDefinition).map fun definition => (definition.id, FeedState.new definition .default))
  crossPairs := FeedStates.collect [
    (4, ⟨.new 4 .lbtc .usdt .cross, [[⟨0, false⟩, ⟨1, true⟩]]⟩),
    (5, ⟨.new 5 .eurx .usdt .cross, [[⟨2, false⟩, ⟨1, true⟩]]⟩),
    (6, ⟨.new 6 .depix .usdt .cross, [[⟨3, false⟩, ⟨1, true⟩]]⟩)]

theorem new_default : FeedStates.new .default = some (.ok supportedStates) := by
  have hcross : (FeedRegistry.default.feeds.filter fun definition => definition.kind = .cross) =
      [.new 4 .lbtc .usdt .cross, .new 5 .eurx .usdt .cross, .new 6 .depix .usdt .cross] := by
    decide +kernel
  have hdirect : (FeedRegistry.default.feeds.filter fun definition => definition.kind = .direct) =
      [.new 0 .lbtc .usd .direct, .new 1 .usdt .usd .direct, .new 2 .eurx .usd .direct,
        .new 3 .depix .usd .direct, .new 7 .usdc .usd .direct] := by
    decide +kernel
  have hlbtc : CrossRoute.candidates .default (.new 4 .lbtc .usdt .cross) =
      some (.ok [[⟨0, false⟩, ⟨1, true⟩]]) := by decide +kernel
  have heurx : CrossRoute.candidates .default (.new 5 .eurx .usdt .cross) =
      some (.ok [[⟨2, false⟩, ⟨1, true⟩]]) := by decide +kernel
  have hdepix : CrossRoute.candidates .default (.new 6 .depix .usdt .cross) =
      some (.ok [[⟨3, false⟩, ⟨1, true⟩]]) := by decide +kernel
  simp only [FeedStates.new, hcross, hdirect, FeedStates.routed, hlbtc, heurx, hdepix,
    Option.bind_eq_bind, Option.bind_some]
  rfl

theorem supportedStates_lbtc_usd : supportedStates.states[(0 : UInt32)]? =
    some (FeedState.new (.new 0 .lbtc .usd .direct) .default) := by
  have hother (key : UInt32) (h : key ≠ 0) : ¬compare key (0 : UInt32) = .eq :=
    mt Std.LawfulEqCmp.eq_of_compare h
  simp only [supportedStates, FeedStates.collect, FeedDefinition.new, List.map_cons, List.map_nil,
    List.foldl_cons, List.foldl_nil, Std.ExtTreeMap.getElem?_insert]
  rw [if_neg (hother 7 (by decide)), if_neg (hother 3 (by decide)), if_neg (hother 2 (by decide)),
    if_neg (hother 1 (by decide)), if_pos (Std.ReflCmp.compare_self)]

/-- A source of LBTC/USD that is disabled while it is polled. -/
theorem sources_follow_calls_frozen : ∃ state,
    ((started supportedStates 1700000000).after [.freeze 0 0, .pollBegins 0 0]).feeds.states[(0 : UInt32)]? =
      some state ∧ state.state 0 = .frozen ∧
    ∃ state', (((started supportedStates 1700000000).after [.freeze 0 0, .pollBegins 0 0]).step
        (.pollEnds 0 0 (.error .requestFailure))).feeds.states[(0 : UInt32)]? = some state' ∧
      state'.record 0 = state.record 0 := by
  obtain ⟨begun, hbegun, -⟩ :=
    @step_stepped (started supportedStates 1700000000) 0 _ supportedStates_lbtc_usd (.pollBegins 0 0)
  obtain ⟨state, hstate, hstepped⟩ := step_stepped hbegun (.freeze 0 0)
  obtain ⟨hsources, hevents, -⟩ := sources_follow_calls new_default
    (show ((started supportedStates 1700000000).after [.freeze 0 0, .pollBegins 0 0]).feeds.states[
      (0 : UInt32)]? = some state from hstate)
  have hfrozen : state.state 0 = .frozen := by
    rw [(hsources 0).1, hstepped.called 0]
    rfl
  obtain ⟨state', hstate', -, hrecord⟩ := hevents (.pollEnds 0 0 (.error .requestFailure))
  exact ⟨state, hstate, hfrozen, state', hstate', hrecord 0 _ rfl hfrozen⟩

end Runs

end PriceOracle
