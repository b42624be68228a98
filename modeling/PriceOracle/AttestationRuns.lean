import PriceOracle.FeedAcceptance
import PriceOracle.PriceAttestations

/-!
# Attest cycles and their delivery

A node attests its feeds' values cycle by cycle to peers that hold the latest attestation of every
node. Its sources are polled side by side, the sending of a cycle may reach only some of the peers,
what was sent arrives in any order and any number of times, and the node may restart, which keeps
its stored attestations and nothing else.
-/

namespace PriceOracle

open Sha256 (Word256)

section Values

open PriceNode
open PriceFeedData (validityWindow)

/-- A node's feeds hold only observations that were recorded, and of the past. -/
structure PriceNode.Sound (node : PriceNode) : Prop where
  crossPairs : node.feeds.crossPairs = supportedStates.crossPairs
  states : ∀ (feed : UInt32) (state : FeedState), node.feeds.states[feed]? = some state →
    state.definition.id = feed ∧ state.registry = .default ∧
      ∀ obs, state.Holds obs → obs.Recorded ∧ obs.receivedAt ≤ node.now

/-- Time does not run back, and a poll is answered by what a source built by then. -/
structure PriceEvent.Timely (node : PriceNode) (event : PriceEvent) : Prop where
  built : event.Built
  clock : ∀ time, event = .clock time → node.now ≤ time
  received : ∀ feed source obs, event = .pollEnds feed source (.ok obs) → obs.receivedAt ≤ node.now

variable {node : PriceNode} {feed : UInt32} {state state' : FeedState} {event : PriceEvent}
  {data : PriceFeedData}

theorem sound_started (now : UInt64) : (started supportedStates now).Sound := by
  refine ⟨rfl, fun feed state hstate => ?_⟩
  obtain ⟨definition, -, hid, rfl⟩ := new_states new_default hstate
  refine ⟨hid, rfl, fun obs hobs => ?_⟩
  obtain ⟨source, record, hsource, -⟩ := hobs
  simp [FeedState.new] at hsource

theorem now_step (htimely : event.Timely node) : node.now ≤ (node.step event).now := by
  cases event with
  | clock time => exact htimely.clock time rfl
  | pollBegins feed source =>
    unfold PriceNode.step
    dsimp only
    split_ifs <;> exact UInt64.le_refl _
  | pollEnds feed source answer =>
    unfold PriceNode.step
    dsimp only
    split_ifs <;> exact UInt64.le_refl _
  | freeze feed source => exact UInt64.le_refl _
  | unfreeze feed source => exact UInt64.le_refl _

/-- What a feed holds after an event it held before, or a poll brought. -/
theorem holds_stepped (hstepped : Stepped node feed event state state') {obs : SourceObservation}
    (hobs : state'.Holds obs) : state.Holds obs ∨ ∃ feed source, event = .pollEnds feed source (.ok obs) ∧
      ∃ last, PriceSource.validate obs last = .ok () := by
  obtain ⟨source, record, hsource, hrecord⟩ := hobs
  have hbefore (record : SourceRecord) (heq : state.record source = record)
      (hrecord : record.observation = some obs) : state.Holds obs := by
    unfold FeedState.record at heq
    cases hheld : state.sources[source]? with
    | none =>
      rw [hheld] at heq
      subst heq
      cases hrecord
    | some held =>
      rw [hheld] at heq
      subst heq
      exact ⟨source, held, hheld, hrecord⟩
  have hcalled := hstepped.called source
  have hafter : (state'.record source).observation = some obs := by
    unfold FeedState.record
    rw [hsource]
    exact hrecord
  rw [hcalled] at hafter
  cases hcall : state.callOf node feed source event with
  | none =>
    rw [hcall] at hafter
    exact .inl (hbefore _ rfl hafter)
  | some call =>
    rw [hcall, Option.elim_some] at hafter
    cases call with
    | failed now =>
      refine .inl (hbefore _ rfl ?_)
      unfold SourceRecord.call SourceRecord.pollFailed at hafter
      dsimp only at hafter
      split_ifs at hafter
      · exact hafter
      · exact hafter
    | succeeded new =>
      unfold SourceRecord.call SourceRecord.pollSucceeded at hafter
      dsimp only at hafter
      split_ifs at hafter
      · exact .inl (hbefore _ rfl hafter)
      · cases hafter
        obtain ⟨⟨feed', source', rfl⟩, hvalid⟩ := FeedState.callOf_succeeded hcall
        exact .inr ⟨feed', source', rfl, _, hvalid⟩
    | frozen => exact .inl (hbefore _ rfl hafter)
    | unfrozen => exact .inl (hbefore _ rfl hafter)

theorem PriceNode.Sound.step (h : node.Sound) (htimely : event.Timely node) : (node.step event).Sound := by
  refine ⟨(step_crossPairs node event).trans h.crossPairs, fun feed state' hstate' => ?_⟩
  obtain ⟨state, hstate⟩ := exists_before hstate'
  obtain ⟨found, hfound, hstepped⟩ := step_stepped hstate event
  obtain rfl : found = state' := Option.some.inj (hfound.symm.trans hstate')
  obtain ⟨hid, hregistry, hheld⟩ := h.states feed state hstate
  refine ⟨by rw [hstepped.definition, hid], by rw [hstepped.registry, hregistry], fun obs hobs => ?_⟩
  rcases holds_stepped hstepped hobs with hobs | ⟨feed', source, rfl, last, hvalid⟩
  · exact ⟨(hheld obs hobs).1, UInt64.le_trans (hheld obs hobs).2 (now_step htimely)⟩
  · obtain ⟨price, decimals, observedAt, receivedAt, rfl⟩ := htimely.built feed' source obs rfl
    exact ⟨recorded_of_new hvalid, UInt64.le_trans (htimely.received feed' source _ rfl) (now_step htimely)⟩

/-- What a value is that a node attests. -/
structure PriceFeedData.Attestable (data : PriceFeedData) (now : UInt64) : Prop where
  definition : ∃ definition, FeedRegistry.default.get data.feedId = some definition ∧
    data.decimals = definition.decimals
  received : data.receivedAt ≤ now
  unexpired : now ≤ data.validUntil
  window : data.validUntil.toNat ≤ data.receivedAt.toNat + validityWindow

theorem PriceNode.Sound.direct (h : node.Sound) (hstate : node.feeds.states[feed]? = some state)
    (hvalue : state.value node.now = some data) : data.feedId = feed ∧ data.Attestable node.now := by
  obtain ⟨hid, hregistry, hheld⟩ := h.states feed state hstate
  have hvalued := FeedState.valued_of_value hvalue
  obtain ⟨⟨received, hreceived, hunexpired, hreceivedEq⟩, -⟩ := hvalued.receivedAt
  obtain ⟨⟨valid, hvalid, hvalidNow, hvalidEq⟩, hvalidLe⟩ := hvalued.validUntil
  refine ⟨by rw [hvalued.feedId, hid], ?_, ?_, ?_, ?_⟩
  · rw [hvalued.feedId, ← hregistry]
    exact hvalued.definition
  · rw [hreceivedEq]
    exact (hheld received hreceived).2
  · rw [hvalidEq]
    exact hvalidNow
  · have hle := UInt64.le_iff_toNat_le.mp (hvalidLe received hreceived hunexpired)
    have hwindow := (hheld received hreceived).1.window
    rw [hreceivedEq]
    omega

theorem crossPair_supported {pair : CrossPair} (h : supportedStates.crossPairs[feed]? = some pair) :
    pair.definition.id = feed ∧ FeedRegistry.default.get feed = some pair.definition := by
  have hmem := FeedStates.mem_of_collect h
  simp only [List.mem_cons, Prod.mk.injEq, List.not_mem_nil, or_false] at hmem
  rcases hmem with ⟨rfl, rfl⟩ | ⟨rfl, rfl⟩ | ⟨rfl, rfl⟩ <;> exact ⟨rfl, by decide +kernel⟩

/-- Every value of a sound node can be attested. -/
theorem PriceNode.Sound.value (h : node.Sound) (hvalue : node.feeds.value node.now feed = some data) :
    data.feedId = feed ∧ data.Attestable node.now := by
  unfold FeedStates.value at hvalue
  cases hpair : node.feeds.crossPairs[feed]? with
  | none =>
    rw [hpair] at hvalue
    obtain ⟨state, hstate, hvalue⟩ := Option.bind_eq_some_iff.mp hvalue
    exact h.direct hstate hvalue
  | some pair =>
    rw [hpair] at hvalue
    obtain ⟨legs, hfound, hcompute⟩ := Option.bind_eq_some_iff.mp hvalue
    obtain ⟨route, -, hlegs⟩ := FeedStates.pricedRoute_of_findSome hfound
    rw [h.crossPairs] at hpair
    obtain ⟨hid, hdefinition⟩ := crossPair_supported hpair
    have hcomputed : CrossPrice.Computed pair.definition legs data := by
      refine CrossPrice.computed_of_ok ?_
      cases hresult : CrossPrice.compute pair.definition legs with
      | error failure =>
        rw [hresult] at hcompute
        cases hcompute
      | ok data' =>
        rw [hresult] at hcompute
        cases hcompute
        rfl
    have hleg (leg : CrossPrice.Leg) (hleg : leg ∈ legs) : leg.2.Attestable node.now := by
      obtain ⟨-, state, hstate, hvalue⟩ := (FeedStates.legsOf_legValues hlegs).valued leg hleg
      exact (h.direct hstate hvalue).2
    obtain ⟨⟨newest, hnewest, hreceivedEq⟩, -⟩ := hcomputed.receivedAt
    obtain ⟨⟨oldest, holdest, hvalidEq⟩, hvalidLe⟩ := hcomputed.validUntil
    refine ⟨by rw [hcomputed.feedId, hid], ⟨pair.definition, ?_, hcomputed.decimals⟩, ?_, ?_, ?_⟩
    · rw [hcomputed.feedId, hid]
      exact hdefinition
    · rw [hreceivedEq]
      exact (hleg newest hnewest).received
    · rw [hvalidEq]
      exact (hleg oldest holdest).unexpired
    · have hle := UInt64.le_iff_toNat_le.mp (hvalidLe newest hnewest)
      have hwindow := (hleg newest hnewest).window
      rw [hreceivedEq]
      omega

end Values

section System

variable {Key Peer : Type} {libraries : SchnorrLibraries Key}

/-- A cycle that ended, with the values it began with. -/
structure AttestCycle (Peer : Type) extends Attested Peer where
  time : UInt64
  values : List PriceFeedData

/-- A node, what its peers hold, and its attest cycles, the latest first. -/
structure AttestingNode (Peer : Type) where
  prices : PriceNode
  store : AttestationStore
  peers : Peer → AttestationStore
  cycles : List (AttestCycle Peer)

/-- What happens: to the sources of the node, an attest cycle, a cycle's message at a peer, a message of another
member at a peer or at the node itself, and a restart. -/
inductive AttestationEvent (Peer : Type) where
  | price (event : PriceEvent)
  | attest (auxRand : UInt32 → List UInt8) (sending : Sending Peer)
  | deliver (peer : Peer) (cycle : AttestCycle Peer)
  | heard (party : Option Peer) (attestations : List PriceAttestation)
  | restart

namespace AttestingNode

def started (now : UInt64) : AttestingNode Peer where
  prices := .started supportedStates now
  store := fun _ => none
  peers := fun _ _ => none
  cycles := []

variable [DecidableEq Peer] (keypair : Keypair libraries) (members : List Word256)

def step (node : AttestingNode Peer) : AttestationEvent Peer → AttestingNode Peer
  | .price event => { node with prices := node.prices.step event }
  | .attest auxRand sending =>
    let values := node.prices.values .default
    let attested := PriceOracle.attest keypair auxRand sending values node.store
    { node with
      store := attested.store
      cycles := { attested with time := node.prices.now, values } :: node.cycles }
  | .deliver peer cycle =>
    { node with
      peers := Function.update node.peers peer (PriceAttestation.handleAttestation libraries (node.peers peer)
        cycle.attestations members .default node.prices.now).1 }
  | .heard none attestations =>
    { node with
      store := (PriceAttestation.handleAttestation libraries node.store attestations members .default
        node.prices.now).1 }
  | .heard (some peer) attestations =>
    { node with
      peers := Function.update node.peers peer (PriceAttestation.handleAttestation libraries (node.peers peer)
        attestations members .default node.prices.now).1 }
  | .restart => { node with prices := .started supportedStates node.prices.now }

/-- Cycles are at least a second apart, a peer receives what was queued for it, and nobody else signs with the
node's key. -/
def Allowed (node : AttestingNode Peer) : AttestationEvent Peer → Prop
  | .price event => event.Timely node.prices
  | .attest _ _ => ∀ cycle ∈ node.cycles, cycle.time < node.prices.now
  | .deliver peer cycle => cycle ∈ node.cycles ∧ peer ∈ cycle.reached
  | .heard _ attestations => ∀ attestation ∈ attestations, attestation.publicKey ≠ keypair.publicKey
  | .restart => True

/-- The states reached by steps that all meet a condition. -/
inductive Run (Meets : AttestingNode Peer → AttestationEvent Peer → Prop) : AttestingNode Peer → Prop where
  | started (now : UInt64) : Run Meets (started now)
  | step {node : AttestingNode Peer} {event : AttestationEvent Peer} : Run Meets node →
      node.Allowed keypair event → Meets node event → Run Meets (node.step keypair members event)

end AttestingNode

end System

section Cycles

variable {Key Peer : Type} {libraries : SchnorrLibraries Key} {keypair : Keypair libraries}
  {auxRand : UInt32 → List UInt8} {sending : Sending Peer} {values : List PriceFeedData}
  {store : AttestationStore} {now : UInt64} {attestation : PriceAttestation} {feed : UInt32}

/-- The keys of what is kept of a list are among the keys of the list, in its order. -/
theorem map_filterMap_sublist {A B C : Type} {f : A → Option B} {g : B → C} {h : A → C}
    (hf : ∀ a b, f a = some b → g b = h a) (as : List A) : ((as.filterMap f).map g).Sublist (as.map h) := by
  induction as with
  | nil => exact .slnil
  | cons a as ih =>
    rw [List.filterMap_cons, List.map_cons]
    cases ha : f a with
    | none => exact ih.cons _
    | some b =>
      dsimp only
      rw [List.map_cons, hf a b ha]
      exact ih.cons_cons _

/-- What is attested of one value. -/
theorem mem_attestations : attestation ∈ keypair.attestations auxRand store values ↔ ∃ feed ∈ values, ∃ stamped,
    feed.stampedAfter (store.lastAttested keypair.publicKey feed.feedId) = some stamped ∧
      keypair.attestation auxRand stamped = attestation := by
  simp only [Keypair.attestations, List.mem_filterMap, Option.map_eq_some_iff]

/-- At most one attestation for each feed. -/
theorem nodup_attestations (h : (values.map PriceFeedData.feedId).Nodup) :
    ((keypair.attestations auxRand store values).map fun attestation => attestation.feed.feedId).Nodup := by
  refine List.Nodup.sublist (map_filterMap_sublist (fun value attestation hattestation => ?_) values) h
  obtain ⟨stamped, hstamped, rfl⟩ := Option.map_eq_some_iff.mp hattestation
  exact (PriceFeedData.sameValue_iff.mp (stampedAfter_eq_some hstamped).1).1.symm

theorem attest_attestations :
    (attest keypair auxRand sending values store).attestations = keypair.attestations auxRand store values := by
  unfold attest
  split
  · next heq => rw [heq]
  · split
    · rfl
    · split <;> rfl

/-- The node's own attestations are stored only once every recipient was reached. -/
theorem attest_store :
    (attest keypair auxRand sending values store).store = store ∨
      sending.result = .ok () ∧ (attest keypair auxRand sending values store).store =
        (store.storeAll (keypair.attestations auxRand store values)).1 := by
  unfold attest
  split
  · exact .inl rfl
  · cases hresult : sending.result with
    | error error => exact .inl rfl
    | ok _ =>
      refine .inr ⟨rfl, ?_⟩
      dsimp only
      split <;> next heq => rw [heq]

/-- After a successful cycle each of its attestations was stored. -/
theorem attest_ok {count : ℕ} (h : (attest keypair auxRand sending values store).result = .ok count) :
    (∀ attestation ∈ keypair.attestations auxRand store values, attestation.Storable) ∧
      (attest keypair auxRand sending values store).store =
        (store.storeAll (keypair.attestations auxRand store values)).1 := by
  unfold attest at h ⊢
  split at h
  · next heq =>
    rw [heq]
    exact ⟨by simp, rfl⟩
  · cases hresult : sending.result with
    | error error =>
      rw [hresult] at h
      cases h
    | ok _ =>
      rw [hresult] at h
      dsimp only at h ⊢
      split at h
      · cases h
      · next store' hstored =>
        refine ⟨storeAll_snd_ok_iff.mp (by rw [hstored]), ?_⟩
        rw [hstored]

end Cycles

end PriceOracle
