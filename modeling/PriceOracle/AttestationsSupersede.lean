import Mathlib.Data.List.TakeWhile
import PriceOracle.AttestationRuns

/-!
# Attestations supersede

A node stamps what it attests after what it has stored, and stores a cycle only once every peer was
reached. What reached some of the peers in a cycle that then failed is not stored, and a value that
differs from it may later be attested with no newer stamp, which those peers do not take. Where no
cycle does so, every peer takes each new value of a feed over the older ones.
-/

namespace PriceOracle

open Sha256 (Word256)
open PriceAttestation (handleAttestation check)
open PriceFeedData (validityWindow)

section Sent

variable {Key : Type} {libraries : SchnorrLibraries Key} {keypair : Keypair libraries}
  {auxRand : UInt32 → List UInt8} {store : AttestationStore} {values : List PriceFeedData}
  {members : List Word256} {now time : UInt64} {attestation row : PriceAttestation} {feed : UInt32}
  {value last stamped : PriceFeedData} {held : Option PriceFeedData}

/-- What an attestation is that the node sent. -/
structure Sent (keypair : Keypair libraries) (time : UInt64) (attestation : PriceAttestation) : Prop where
  publicKey : attestation.publicKey = keypair.publicKey
  verified : attestation.verify libraries = .ok ()
  definition : ∃ definition, FeedRegistry.default.get attestation.feed.feedId = some definition ∧
    attestation.feed.decimals = definition.decimals
  received : attestation.feed.receivedAt ≤ time
  unexpired : time ≤ attestation.feed.validUntil
  window : attestation.feed.validUntil.toNat ≤ attestation.feed.receivedAt.toNat + validityWindow

/-- A new stamp is not ahead of the clock, and later than what is held. -/
theorem stampedAfter_stamp (hstamped : value.stampedAfter held = some stamped)
    (hheld : ∀ last ∈ held, last.receivedAt < now) (hreceived : value.receivedAt ≤ now) :
    stamped.receivedAt ≤ now ∧ value.receivedAt ≤ stamped.receivedAt ∧
      ∀ last ∈ held, last.receivedAt < stamped.receivedAt := by
  rcases (stampedAfter_eq_some hstamped).2 with ⟨heq, hlater⟩ | ⟨last, rfl, hle, heq⟩
  · rw [heq]
    exact ⟨hreceived, UInt64.le_refl _, hlater⟩
  · have hnow := UInt64.lt_iff_toNat_lt.mp (hheld last rfl)
    have hstamp : stamped.receivedAt.toNat = last.receivedAt.toNat + 1 := by
      have := now.toNat_lt
      rw [heq, UInt64.toNat_add, UInt64.toNat_one]
      omega
    have hle := UInt64.le_iff_toNat_le.mp hle
    simp only [Option.mem_def, Option.some.injEq, forall_eq', UInt64.le_iff_toNat_le, UInt64.lt_iff_toNat_lt, hstamp]
    omega

theorem lastAttested_eq_some_iff : store.lastAttested keypair.publicKey feed = some last ↔
    ∃ row, store (keypair.publicKey, feed) = some row ∧ { row.feed with feedId := feed } = last := by
  unfold AttestationStore.lastAttested
  rw [Option.map_eq_some_iff]

/-- All that the node holds of its own is of before now. -/
def Behind (keypair : Keypair libraries) (store : AttestationStore) (now : UInt64) : Prop :=
  ∀ feed row, store (keypair.publicKey, feed) = some row → row.feed.receivedAt < now

theorem Behind.lastAttested (h : Behind keypair store now) :
    ∀ last ∈ store.lastAttested keypair.publicKey feed, last.receivedAt < now := by
  intro last hlast
  obtain ⟨row, hrow, rfl⟩ := lastAttested_eq_some_iff.mp hlast
  exact h feed row hrow

theorem sent_of_mem (hstore : Behind keypair store now) (hvalues : ∀ value ∈ values, value.Attestable now)
    (h : attestation ∈ keypair.attestations auxRand store values) : Sent keypair now attestation := by
  obtain ⟨value, hvalue, stamped, hstamped, rfl⟩ := mem_attestations.mp h
  obtain ⟨hreceived, hlater, -⟩ := stampedAfter_stamp hstamped hstore.lastAttested (hvalues value hvalue).received
  obtain ⟨hid, -, hdecimals, hvalid⟩ := PriceFeedData.sameValue_iff.mp (stampedAfter_eq_some hstamped).1
  obtain ⟨definition, hdefinition, heq⟩ := (hvalues value hvalue).definition
  refine ⟨rfl, keypair.verify_attestation auxRand stamped, ⟨definition, ?_, ?_⟩, hreceived, ?_, ?_⟩
  · exact hid ▸ hdefinition
  · exact hdecimals ▸ heq
  · exact hvalid ▸ (hvalues value hvalue).unexpired
  · have hwindow := (hvalues value hvalue).window
    have hlater := UInt64.le_iff_toNat_le.mp hlater
    change stamped.validUntil.toNat ≤ stamped.receivedAt.toNat + validityWindow
    rw [← hvalid]
    omega

/-- What was sent passes the check of a member whose clock is not behind. -/
theorem Sent.checked (h : Sent keypair time attestation) (hmember : keypair.publicKey ∈ members)
    (hnow : time ≤ now) : attestation.Checked libraries members .default now := by
  refine ⟨h.publicKey ▸ hmember, h.definition, stampedAhead_eq_false_iff.mpr ?_,
    validityStretched_eq_false_iff.mpr h.window, h.verified⟩
  have hreceived := UInt64.le_iff_toNat_le.mp (UInt64.le_trans h.received hnow)
  omega

/-- What expires within the range of the database, was received within it. -/
theorem Sent.storable_iff (h : Sent keypair time attestation) : attestation.Storable ↔
    attestation.feed.price.toNat < 2 ^ 63 ∧ attestation.feed.validUntil.toNat < 2 ^ 63 := by
  have hle := UInt64.le_iff_toNat_le.mp (UInt64.le_trans h.received h.unexpired)
  unfold PriceAttestation.Storable
  constructor
  · exact fun ⟨hprice, _, hvalid⟩ => ⟨hprice, hvalid⟩
  · exact fun ⟨hprice, hvalid⟩ => ⟨hprice, by omega, hvalid⟩

end Sent

section Handled

variable {Key : Type} {libraries : SchnorrLibraries Key} {store : AttestationStore} {members : List Word256}
  {registry : FeedRegistry} {now : UInt64} {attestations : List PriceAttestation}
  {attestation row : PriceAttestation} {key : Word256 × UInt32}

theorem handled_of_ok (h : check libraries attestations members registry now = .ok ()) :
    handleAttestation libraries store attestations members registry now = store.storeAll attestations := by
  unfold handleAttestation
  rw [h]

/-- What is held after a message was held before or came with it. -/
theorem handled_cases (h : (handleAttestation libraries store attestations members registry now).1 key = some row) :
    store key = some row ∨ (row ∈ attestations.takeWhile fun attestation => attestation.Storable) ∧ row.key = key := by
  cases hcheck : check libraries attestations members registry now with
  | error error =>
    unfold handleAttestation at h
    rw [hcheck] at h
    exact .inl h
  | ok _ =>
    rw [handled_of_ok hcheck, storeAll_fst] at h
    exact LatestRows.keepAll_cases h

/-- The rows of another member's key stay. -/
theorem handled_of_ne {publicKey : Word256} {feed : UInt32}
    (hkeys : ∀ attestation ∈ attestations, attestation.publicKey ≠ publicKey) :
    (handleAttestation libraries store attestations members registry now).1 (publicKey, feed) =
      store (publicKey, feed) := by
  cases hcheck : check libraries attestations members registry now with
  | error error =>
    unfold handleAttestation
    rw [hcheck]
  | ok _ =>
    rw [handled_of_ok hcheck, storeAll_fst]
    refine LatestRows.keepAll_of_ne fun attestation hattestation heq => ?_
    exact hkeys attestation ((List.takeWhile_sublist _).subset hattestation) (congrArg Prod.fst heq)

end Handled

section Kept

open AttestingNode

variable {Key Peer : Type} [DecidableEq Peer] {libraries : SchnorrLibraries Key} {keypair : Keypair libraries}
  {members : List Word256} {node : AttestingNode Peer} {event : AttestationEvent Peer}
  {Meets : AttestingNode Peer → AttestationEvent Peer → Prop} {feed : UInt32} {row : PriceAttestation}

/-- What holds of the node and of what its peers hold of it, in every run. -/
structure Kept (keypair : Keypair libraries) (node : AttestingNode Peer) : Prop where
  prices : node.prices.Sound
  times : ∀ cycle ∈ node.cycles, cycle.time ≤ node.prices.now
  rows : ∀ feed row, node.store (keypair.publicKey, feed) = some row →
    row.feed.feedId = feed ∧ ∃ cycle ∈ node.cycles, row.feed.receivedAt ≤ cycle.time
  sent : ∀ cycle ∈ node.cycles, (∀ attestation ∈ cycle.attestations, Sent keypair cycle.time attestation) ∧
    (cycle.attestations.map fun attestation => attestation.feed.feedId).Nodup
  held : ∀ peer feed row, node.peers peer (keypair.publicKey, feed) = some row → row.feed.feedId = feed ∧
    ∃ cycle ∈ node.cycles, peer ∈ cycle.reached ∧
      row ∈ cycle.attestations.takeWhile fun attestation => attestation.Storable

omit [DecidableEq Peer] in
theorem Kept.behind (h : Kept keypair node) (hlater : ∀ cycle ∈ node.cycles, cycle.time < node.prices.now) :
    Behind keypair node.store node.prices.now := by
  intro feed row hrow
  obtain ⟨-, cycle, hcycle, hle⟩ := h.rows feed row hrow
  exact UInt64.lt_of_le_of_lt hle (hlater cycle hcycle)

/-- The values of the supported feeds can be attested, one for each feed. -/
theorem PriceNode.Sound.values {node : PriceNode} (h : node.Sound) :
    (∀ value ∈ node.values .default, value.Attestable node.now) ∧
      ((node.values .default).map PriceFeedData.feedId).Nodup := by
  constructor
  · intro value hvalue
    obtain ⟨definition, -, hvalue⟩ := List.mem_filterMap.mp hvalue
    exact (h.value hvalue).2
  · have hids : (FeedRegistry.default.feeds.map FeedDefinition.id).Nodup := by decide +kernel
    exact hids.sublist (map_filterMap_sublist (fun definition value hvalue => (h.value hvalue).1) _)

omit [DecidableEq Peer] in
theorem kept_started (now : UInt64) : Kept keypair (started now : AttestingNode Peer) :=
  ⟨sound_started now, by simp [started], by simp [started], by simp [started], by simp [started]⟩

/-- One cycle of the node. -/
theorem Kept.attest (h : Kept keypair node) (hlater : ∀ cycle ∈ node.cycles, cycle.time < node.prices.now)
    (auxRand : UInt32 → List UInt8) (sending : Sending Peer) :
    Kept keypair (node.step keypair members (.attest auxRand sending)) := by
  obtain ⟨hvalues, hids⟩ := h.prices.values
  have hsent (attestation : PriceAttestation) (hmem : attestation ∈
      keypair.attestations auxRand node.store (node.prices.values .default)) :
      Sent keypair node.prices.now attestation := sent_of_mem (h.behind hlater) hvalues hmem
  constructor
  · exact h.prices
  · rintro cycle (_ | ⟨_, hcycle⟩)
    · exact UInt64.le_refl _
    · exact h.times cycle hcycle
  · intro feed row hrow
    have hold (hheld : node.store (keypair.publicKey, feed) = some row) : row.feed.feedId = feed ∧
        ∃ cycle ∈ (node.step keypair members (.attest auxRand sending)).cycles, row.feed.receivedAt ≤ cycle.time := by
      obtain ⟨hfeed, cycle, hcycle, hle⟩ := h.rows feed row hheld
      exact ⟨hfeed, cycle, List.mem_cons_of_mem _ hcycle, hle⟩
    change (PriceOracle.attest keypair auxRand sending (node.prices.values .default) node.store).store _ = _ at hrow
    rcases attest_store with heq | ⟨-, heq⟩ <;> rw [heq] at hrow
    · exact hold hrow
    · rw [storeAll_fst] at hrow
      rcases LatestRows.keepAll_cases hrow with hheld | ⟨hmem, hkey⟩
      · exact hold hheld
      · refine ⟨congrArg Prod.snd hkey, _, List.mem_cons_self, ?_⟩
        exact (hsent row ((List.takeWhile_sublist _).subset hmem)).received
  · rintro cycle (_ | ⟨_, hcycle⟩)
    · dsimp only
      rw [attest_attestations]
      exact ⟨hsent, nodup_attestations hids⟩
    · exact h.sent cycle hcycle
  · intro peer feed row hrow
    obtain ⟨hfeed, cycle, hcycle, hheld⟩ := h.held peer feed row hrow
    exact ⟨hfeed, cycle, List.mem_cons_of_mem _ hcycle, hheld⟩

theorem Kept.step (h : Kept keypair node) (hallowed : node.Allowed keypair event) :
    Kept keypair (node.step keypair members event) := by
  cases event with
  | price event =>
    exact ⟨h.prices.step hallowed, fun cycle hcycle =>
      UInt64.le_trans (h.times cycle hcycle) (now_step hallowed), h.rows, h.sent, h.held⟩
  | attest auxRand sending => exact h.attest hallowed auxRand sending
  | deliver peer cycle =>
    refine ⟨h.prices, h.times, h.rows, h.sent, fun other feed row hrow => ?_⟩
    by_cases hpeer : other = peer
    · subst hpeer
      simp only [AttestingNode.step, Function.update_self] at hrow
      rcases handled_cases hrow with hheld | ⟨hmem, hkey⟩
      · exact h.held other feed row hheld
      · exact ⟨congrArg Prod.snd hkey, cycle, hallowed.1, hallowed.2, hmem⟩
    · simp only [AttestingNode.step, Function.update_of_ne hpeer] at hrow
      exact h.held other feed row hrow
  | heard party attestations =>
    cases party with
    | none =>
      refine ⟨h.prices, h.times, fun feed row hrow => ?_, h.sent, h.held⟩
      simp only [AttestingNode.step] at hrow
      rw [handled_of_ne hallowed] at hrow
      exact h.rows feed row hrow
    | some peer =>
      refine ⟨h.prices, h.times, h.rows, h.sent, fun other feed row hrow => ?_⟩
      by_cases hpeer : other = peer
      · subst hpeer
        simp only [AttestingNode.step, Function.update_self] at hrow
        rw [handled_of_ne hallowed] at hrow
        exact h.held other feed row hrow
      · simp only [AttestingNode.step, Function.update_of_ne hpeer] at hrow
        exact h.held other feed row hrow
  | restart => exact ⟨sound_started _, h.times, h.rows, h.sent, h.held⟩

theorem kept_of_run (h : Run keypair members Meets node) : Kept keypair node := by
  induction h with
  | started now => exact kept_started now
  | step _ hallowed _ ih => exact ih.step hallowed

omit [DecidableEq Peer] in
/-- Whatever a node sends passes the check of a peer whose clock is not behind. -/
theorem Kept.check (h : Kept keypair node) (hmember : keypair.publicKey ∈ members) {cycle : AttestCycle Peer}
    (hcycle : cycle ∈ node.cycles) {now : UInt64} (hnow : cycle.time ≤ now) :
    check libraries cycle.attestations members .default now = .ok () := by
  obtain ⟨hsent, hfeeds⟩ := h.sent cycle hcycle
  exact check_ok (fun attestation hmem => (hsent attestation hmem).checked hmember hnow) hfeeds

end Kept

section Unchanged

open AttestingNode

variable {Key Peer : Type} [DecidableEq Peer] {libraries : SchnorrLibraries Key} {keypair : Keypair libraries}
  {auxRand : UInt32 → List UInt8} {sending : Sending Peer} {values : List PriceFeedData}
  {store : AttestationStore} {members : List Word256} {node : AttestingNode Peer}
  {event : AttestationEvent Peer} {Meets : AttestingNode Peer → AttestationEvent Peer → Prop}
  {feed : UInt32} {value : PriceFeedData} {cycle : AttestCycle Peer}

/-- The store has the value, stamped no earlier than it was received. -/
def Remembered (keypair : Keypair libraries) (store : AttestationStore) (value : PriceFeedData) : Prop :=
  ∃ last, store.lastAttested keypair.publicKey value.feedId = some last ∧
    value.receivedAt ≤ last.receivedAt ∧ value.SameValue last

/-- A remembered value is not attested again. -/
theorem not_mem_of_remembered (h : ∀ value ∈ values, value.feedId = feed → Remembered keypair store value)
    {attestation : PriceAttestation} (hmem : attestation ∈ keypair.attestations auxRand store values) :
    attestation.feed.feedId ≠ feed := by
  obtain ⟨value, hvalue, stamped, hstamped, rfl⟩ := mem_attestations.mp hmem
  intro heq
  have hid := (PriceFeedData.sameValue_iff.mp (stampedAfter_eq_some hstamped).1).1
  rw [stampedAfter_eq_none_iff.mpr (h value hvalue (hid.trans heq))] at hstamped
  cases hstamped

omit [DecidableEq Peer] in
/-- A cycle that attests nothing of a feed leaves what is stored of it. -/
theorem attest_store_of_ne
    (h : ∀ attestation ∈ keypair.attestations auxRand store values, attestation.feed.feedId ≠ feed) :
    (attest keypair auxRand sending values store).store (keypair.publicKey, feed) =
      store (keypair.publicKey, feed) := by
  rcases attest_store with heq | ⟨-, heq⟩ <;> rw [heq]
  rw [storeAll_fst]
  exact LatestRows.keepAll_of_ne fun attestation hmem hkey =>
    h attestation ((List.takeWhile_sublist _).subset hmem) (congrArg Prod.snd hkey)

omit [DecidableEq Peer] in
/-- After a successful cycle every value it began with is remembered. -/
theorem remembered_of_ok (hbehind : Behind keypair store now) (hids : (values.map PriceFeedData.feedId).Nodup)
    (hvalues : ∀ value ∈ values, value.Attestable now) {count : ℕ}
    (hok : (attest keypair auxRand sending values store).result = .ok count) (hvalue : value ∈ values) :
    Remembered keypair (attest keypair auxRand sending values store).store value := by
  obtain ⟨hstorable, hstore⟩ := attest_ok hok
  cases hstamped : value.stampedAfter (store.lastAttested keypair.publicKey value.feedId) with
  | none =>
    have hremembered : Remembered keypair store value := stampedAfter_eq_none_iff.mp hstamped
    have hnone (attestation : PriceAttestation)
        (hmem : attestation ∈ keypair.attestations auxRand store values) :
        attestation.feed.feedId ≠ value.feedId := by
      refine not_mem_of_remembered (fun other hother hid => ?_) hmem
      exact List.inj_on_of_nodup_map hids hother hvalue hid ▸ hremembered
    unfold Remembered AttestationStore.lastAttested
    rw [attest_store_of_ne hnone]
    exact hremembered
  | some stamped =>
    have hmem : keypair.attestation auxRand stamped ∈ keypair.attestations auxRand store values :=
      mem_attestations.mpr ⟨value, hvalue, stamped, hstamped, rfl⟩
    have hsame := (stampedAfter_eq_some hstamped).1
    have hid := (PriceFeedData.sameValue_iff.mp hsame).1
    obtain ⟨-, hle, hlater⟩ := stampedAfter_stamp hstamped hbehind.lastAttested (hvalues value hvalue).received
    have hnewer : LatestRows.Newer PriceAttestation.key PriceAttestation.stamp store
        (keypair.attestation auxRand stamped) := by
      intro held hheld
      refine UInt64.lt_iff_toNat_lt.mp (hlater { held.feed with feedId := value.feedId } ?_)
      exact lastAttested_eq_some_iff.mpr ⟨held, hid ▸ hheld, rfl⟩
    have hkeys : ((keypair.attestations auxRand store values).map PriceAttestation.key).Nodup := by
      refine List.Nodup.of_map Prod.snd ?_
      rw [List.map_map]
      exact nodup_attestations hids
    have hrow := LatestRows.keepAll_of_newer hkeys hmem hnewer
    have hall : ((keypair.attestations auxRand store values).takeWhile fun attestation => attestation.Storable) =
        keypair.attestations auxRand store values :=
      List.takeWhile_eq_self_iff.mpr fun attestation hattestation => by simpa using hstorable attestation hattestation
    refine ⟨stamped, lastAttested_eq_some_iff.mpr ⟨keypair.attestation auxRand stamped, ?_, ?_⟩, hle, hsame⟩
    · rw [hstore, storeAll_fst, hall, hid]
      exact hrow
    · rw [hid]
      rfl

/-- The cycles had no other value of the feed. -/
def Unchanged (cycles : List (AttestCycle Peer)) (value : PriceFeedData) : Prop :=
  ∀ cycle ∈ cycles, ∀ other ∈ cycle.values, other.feedId = value.feedId → other = value

/-- A value of a successful cycle is remembered as long as it does not change, and not attested again. -/
structure Quiet (keypair : Keypair libraries) (node : AttestingNode Peer) : Prop where
  remembered : ∀ between cycle earlier, node.cycles = between ++ cycle :: earlier →
    ∀ count, cycle.result = .ok count → ∀ value ∈ cycle.values, Unchanged between value →
      Remembered keypair node.store value
  quiet : ∀ next again between cycle earlier, node.cycles = next ++ again :: (between ++ cycle :: earlier) →
    ∀ count, cycle.result = .ok count → ∀ value ∈ cycle.values, Unchanged (again :: between) value →
      ∀ attestation ∈ again.attestations, attestation.feed.feedId ≠ value.feedId

theorem Quiet.attest (h : Quiet keypair node) (hkept : Kept keypair node)
    (hlater : ∀ cycle ∈ node.cycles, cycle.time < node.prices.now) (auxRand : UInt32 → List UInt8)
    (sending : Sending Peer) : Quiet keypair (node.step keypair members (.attest auxRand sending)) := by
  obtain ⟨hvalues, hids⟩ := hkept.prices.values
  -- The new cycle attests nothing of a value that is remembered and is still what the feed has.
  have hquiet (between : List (AttestCycle Peer)) (cycle : AttestCycle Peer) (earlier : List (AttestCycle Peer))
      (hcycles : node.cycles = between ++ cycle :: earlier) (count : ℕ) (hok : cycle.result = .ok count)
      (value : PriceFeedData) (hvalue : value ∈ cycle.values) (hbetween : Unchanged between value)
      (hnow : ∀ other ∈ node.prices.values .default, other.feedId = value.feedId → other = value) :
      Remembered keypair node.store value ∧ ∀ attestation ∈
        keypair.attestations auxRand node.store (node.prices.values .default),
          attestation.feed.feedId ≠ value.feedId := by
    have hremembered := h.remembered between cycle earlier hcycles count hok value hvalue hbetween
    refine ⟨hremembered, fun attestation hmem => not_mem_of_remembered (fun other hother hid => ?_) hmem⟩
    exact hnow other hother hid ▸ hremembered
  constructor
  · intro between cycle earlier hcycles count hok value hvalue hunchanged
    rcases List.cons_eq_append_iff.mp hcycles with ⟨rfl, heq⟩ | ⟨between, rfl, heq⟩
    · cases heq
      exact remembered_of_ok (hkept.behind hlater) hids hvalues hok hvalue
    · obtain ⟨hremembered, hnone⟩ := hquiet between cycle earlier heq count hok value hvalue
        (fun other hother => hunchanged other (List.mem_cons_of_mem _ hother))
        (hunchanged _ List.mem_cons_self)
      unfold Remembered AttestationStore.lastAttested AttestingNode.step
      dsimp only
      rw [attest_store_of_ne hnone]
      exact hremembered
  · intro next again between cycle earlier hcycles count hok value hvalue hunchanged
    rcases List.cons_eq_append_iff.mp hcycles with ⟨rfl, heq⟩ | ⟨next, rfl, heq⟩
    · obtain ⟨rfl, hrest⟩ := List.cons.inj heq
      dsimp only
      rw [attest_attestations]
      exact (hquiet between cycle earlier hrest.symm count hok value hvalue
        (fun other hother => hunchanged other (List.mem_cons_of_mem _ hother))
        (hunchanged _ List.mem_cons_self)).2
    · exact h.quiet next again between cycle earlier heq count hok value hvalue hunchanged

theorem Quiet.step (h : Quiet keypair node) (hkept : Kept keypair node) (hallowed : node.Allowed keypair event) :
    Quiet keypair (node.step keypair members event) := by
  cases event with
  | price event => exact ⟨h.remembered, h.quiet⟩
  | attest auxRand sending => exact h.attest hkept hallowed auxRand sending
  | deliver peer cycle => exact ⟨h.remembered, h.quiet⟩
  | heard party attestations =>
    cases party with
    | none =>
      refine ⟨fun between cycle earlier hcycles count hok value hvalue hunchanged => ?_, h.quiet⟩
      have hremembered := h.remembered between cycle earlier hcycles count hok value hvalue hunchanged
      unfold Remembered AttestationStore.lastAttested AttestingNode.step
      dsimp only
      rw [handled_of_ne hallowed]
      exact hremembered
    | some peer => exact ⟨h.remembered, h.quiet⟩
  | restart => exact ⟨h.remembered, h.quiet⟩

theorem quiet_of_run (h : Run keypair members Meets node) : Quiet keypair node := by
  induction h with
  | started now => exact ⟨by simp [started], by simp [started]⟩
  | step hrun hallowed _ ih => exact ih.step (kept_of_run hrun) hallowed

end Unchanged

section Superseding

open AttestingNode

variable {Key Peer : Type} [DecidableEq Peer] {libraries : SchnorrLibraries Key} {keypair : Keypair libraries}
  {auxRand : UInt32 → List UInt8} {sending : Sending Peer} {members : List Word256} {node : AttestingNode Peer}
  {event : AttestationEvent Peer} {cycle : AttestCycle Peer} {attestation : PriceAttestation}

/-- The value is not what is stored, or is newer. -/
def Due (publicKey : Word256) (store : AttestationStore) (value : PriceFeedData) : Prop :=
  ∀ last ∈ store.lastAttested publicKey value.feedId, ¬(value.receivedAt ≤ last.receivedAt ∧ value.SameValue last)

/-- A cycle attests no value that differs from what some peer may hold from a cycle before, unless the value is newer
than that or the node has stored as late a stamp, and all it attests up to that value can be stored. -/
def Superseding (publicKey : Word256) (node : AttestingNode Peer) : AttestationEvent Peer → Prop
  | .attest _ _ => ∀ before value after, node.prices.values .default = before ++ value :: after →
      Due publicKey node.store value → ∀ cycle ∈ node.cycles, cycle.reached ≠ [] →
      ∀ old ∈ cycle.attestations.takeWhile fun attestation => attestation.Storable,
        old.feed.feedId = value.feedId → ¬value.SameValue old.feed →
        (old.feed.receivedAt < value.receivedAt ∨
          ∃ last ∈ node.store.lastAttested publicKey value.feedId, old.feed.receivedAt ≤ last.receivedAt) ∧
        ∀ other ∈ before ++ [value], Due publicKey node.store other →
          other.price.toNat < 2 ^ 63 ∧ other.validUntil.toNat < 2 ^ 63
  | _ => True

/-- Every new value of the later cycle has a later stamp than what reached a peer in the earlier one. -/
def Supersedes (later earlier : AttestCycle Peer) : Prop :=
  earlier.reached ≠ [] → ∀ old ∈ earlier.attestations.takeWhile fun attestation => attestation.Storable,
    ∀ new ∈ later.attestations, new.feed.feedId = old.feed.feedId → ¬new.feed.SameValue old.feed →
      old.feed.receivedAt < new.feed.receivedAt ∧
        new ∈ later.attestations.takeWhile fun attestation => attestation.Storable

theorem due_of_stampedAfter {publicKey : Word256} {store : AttestationStore} {value stamped : PriceFeedData}
    (h : value.stampedAfter (store.lastAttested publicKey value.feedId) = some stamped) : Due publicKey store value := by
  intro last hlast hsame
  rw [stampedAfter_eq_none_iff.mpr ⟨last, hlast, hsame⟩] at h
  cases h

omit [DecidableEq Peer] in
/-- What is attested of one value and of those before it is stored by whoever stores it. -/
theorem mem_takeWhile_attestations (hkept : Kept keypair node)
    (hlater : ∀ cycle ∈ node.cycles, cycle.time < node.prices.now) {before after : List PriceFeedData}
    {value stamped : PriceFeedData} (hvalues : node.prices.values .default = before ++ value :: after)
    (hstamped : value.stampedAfter (node.store.lastAttested keypair.publicKey value.feedId) = some stamped)
    (hfits : ∀ other ∈ before ++ [value], Due keypair.publicKey node.store other →
      other.price.toNat < 2 ^ 63 ∧ other.validUntil.toNat < 2 ^ 63) :
    keypair.attestation auxRand stamped ∈ (keypair.attestations auxRand node.store
      (node.prices.values .default)).takeWhile fun attestation => attestation.Storable := by
  obtain ⟨hattestable, -⟩ := hkept.prices.values
  have hstorable (attestation : PriceAttestation)
      (hmem : attestation ∈ keypair.attestations auxRand node.store (before ++ [value])) : attestation.Storable := by
    obtain ⟨other, hother, stamped, hstamped, rfl⟩ := mem_attestations.mp hmem
    have hsent : Sent keypair node.prices.now (keypair.attestation auxRand stamped) := by
      refine sent_of_mem (hkept.behind hlater) hattestable (mem_attestations.mpr ⟨other, ?_, stamped, hstamped, rfl⟩)
      rw [hvalues, List.append_cons]
      exact List.mem_append_left _ hother
    obtain ⟨-, hprice, -, hvalid⟩ := PriceFeedData.sameValue_iff.mp (stampedAfter_eq_some hstamped).1
    refine hsent.storable_iff.mpr ?_
    change stamped.price.toNat < _ ∧ stamped.validUntil.toNat < _
    rw [← hprice, ← hvalid]
    exact hfits other hother (due_of_stampedAfter hstamped)
  have hsplit : keypair.attestations auxRand node.store (node.prices.values .default) =
      keypair.attestations auxRand node.store (before ++ [value]) ++
        keypair.attestations auxRand node.store after := by
    rw [hvalues, List.append_cons]
    exact List.filterMap_append
  rw [hsplit, List.takeWhile_append_of_pos fun attestation hmem => by simpa using hstorable attestation hmem]
  refine List.mem_append_left _ (mem_attestations.mpr ⟨value, ?_, stamped, hstamped, rfl⟩)
  exact List.mem_append_right _ List.mem_cons_self

omit [DecidableEq Peer] in
/-- A cycle that meets the condition supersedes all before it. -/
theorem supersedes_attest (hkept : Kept keypair node)
    (hlater : ∀ cycle ∈ node.cycles, cycle.time < node.prices.now)
    (hmeets : Superseding keypair.publicKey node (.attest auxRand sending)) (hcycle : cycle ∈ node.cycles) :
    Supersedes { attest keypair auxRand sending (node.prices.values .default) node.store with
      time := node.prices.now, values := node.prices.values .default } cycle := by
  intro hreached old hold new hnew hfeed hdiffers
  dsimp only at hnew ⊢
  rw [attest_attestations] at hnew ⊢
  obtain ⟨value, hvalue, stamped, hstamped, rfl⟩ := mem_attestations.mp hnew
  obtain ⟨before, after, hvalues⟩ := List.append_of_mem hvalue
  have hsame := PriceFeedData.sameValue_iff.mp (stampedAfter_eq_some hstamped).1
  obtain ⟨hstamp, hfits⟩ := hmeets before value after hvalues (due_of_stampedAfter hstamped) cycle hcycle hreached old
    hold (hfeed.symm.trans hsame.1.symm) fun hvalueSame => hdiffers (PriceFeedData.sameValue_iff.mpr (by
      obtain ⟨hid, hprice, hdecimals, hvalid⟩ := hsame
      rw [PriceFeedData.sameValue_iff, hid, hprice, hdecimals, hvalid] at hvalueSame
      exact hvalueSame))
  refine ⟨?_, mem_takeWhile_attestations hkept hlater hvalues hstamped hfits⟩
  obtain ⟨-, hreceived, hheld⟩ := stampedAfter_stamp hstamped (hkept.behind hlater).lastAttested
    (hkept.prices.values.1 value hvalue).received
  rcases hstamp with hlt | ⟨last, hlast, hle⟩
  · exact UInt64.lt_of_lt_of_le hlt hreceived
  · exact UInt64.lt_of_le_of_lt hle (hheld last hlast)

theorem supersedes_of_run (h : Run keypair members (Superseding keypair.publicKey) node) :
    node.cycles.Pairwise Supersedes := by
  induction h with
  | started now => exact List.Pairwise.nil
  | @step node event hrun hallowed hmeets ih =>
    cases event with
    | attest auxRand sending =>
      exact List.Pairwise.cons (fun cycle hcycle =>
        supersedes_attest (kept_of_run hrun) hallowed hmeets hcycle) ih
    | heard party attestations => cases party <;> exact ih
    | _ => exact ih

/-- What a peer holds of the node from before a cycle, and that the cycle attests another value for, is replaced once
the cycle's message arrives; a value of a successful cycle is not attested again while it stays the same; and what the
node sends passes the check of every peer with its clock and its members. -/
theorem attestations_supersede (hmember : keypair.publicKey ∈ members)
    (hrun : Run keypair members (Superseding keypair.publicKey) node) :
    (∀ later cycle earlier, node.cycles = later ++ cycle :: earlier → ∀ peer ∈ cycle.reached,
      ∀ new ∈ cycle.attestations, ∀ old, node.peers peer new.key = some old →
        (∀ cycle ∈ later, old ∉ cycle.attestations) → ¬new.feed.SameValue old.feed →
          (node.step keypair members (.deliver peer cycle)).peers peer new.key = some new) ∧
    (∀ next again between cycle earlier, node.cycles = next ++ again :: (between ++ cycle :: earlier) →
      ∀ count, cycle.result = .ok count → ∀ value ∈ cycle.values, Unchanged (again :: between) value →
        ∀ attestation ∈ again.attestations, attestation.feed.feedId ≠ value.feedId) ∧
    ∀ cycle ∈ node.cycles, ∀ now, cycle.time ≤ now →
      check libraries cycle.attestations members .default now = .ok () := by
  have hkept := kept_of_run hrun
  refine ⟨?_, (quiet_of_run hrun).quiet, fun cycle hcycle now hnow => hkept.check hmember hcycle hnow⟩
  intro later cycle earlier hcycles peer hpeer new hnew old hold hlast hdiffers
  have hcycle : cycle ∈ node.cycles := by simp [hcycles]
  obtain ⟨hsent, hfeeds⟩ := hkept.sent cycle hcycle
  have hkey : new.key = (keypair.publicKey, new.feed.feedId) := Prod.ext (hsent new hnew).publicKey rfl
  obtain ⟨hfeed, from_, hfrom, hreached, hmem⟩ := hkept.held peer new.feed.feedId old (hkey ▸ hold)
  -- What the peer holds came with an earlier cycle.
  have hearlier : from_ ∈ earlier := by
    have hattested := (List.takeWhile_sublist _).subset hmem
    rw [hcycles, List.mem_append, List.mem_cons] at hfrom
    rcases hfrom with hlater | rfl | hearlier
    · exact absurd hattested (hlast from_ hlater)
    · obtain rfl := List.inj_on_of_nodup_map hfeeds hattested hnew hfeed
      exact absurd rfl hdiffers
    · exact hearlier
  have hsupersedes : Supersedes cycle from_ := by
    have hpairs := supersedes_of_run hrun
    rw [hcycles, List.pairwise_append, List.pairwise_cons] at hpairs
    exact hpairs.2.1.1 from_ hearlier
  obtain ⟨hlt, hstored⟩ := hsupersedes (List.ne_nil_of_mem hreached) old hmem new hnew hfeed.symm hdiffers
  have hnewer : LatestRows.Newer PriceAttestation.key PriceAttestation.stamp (node.peers peer) new := by
    intro held hheld
    obtain rfl := Option.some.inj (hold.symm.trans hheld)
    exact UInt64.lt_iff_toNat_lt.mp hlt
  have hkeys : ((cycle.attestations.takeWhile fun attestation => attestation.Storable).map PriceAttestation.key).Nodup := by
    refine List.Nodup.of_map Prod.snd ?_
    rw [List.map_map]
    exact hfeeds.sublist ((List.takeWhile_sublist _).map _)
  simp only [AttestingNode.step, Function.update_self]
  rw [handled_of_ok (hkept.check hmember hcycle (hkept.times cycle hcycle)), storeAll_fst]
  exact LatestRows.keepAll_of_newer hkeys hstored hnewer

end Superseding

section Example

open PriceNode AttestingNode

/-- Every message has the same signature. -/
def uniformLibraries : SchnorrLibraries Unit where
  schnorrVerify signature _ _ := signature = List.replicate 64 1
  xOnlyFromSlice _ := some ()
  verifySchnorr signature _ _ := signature = List.replicate 64 1

def uniformKeypair : Keypair uniformLibraries where
  publicKey := ⟨1, 2, 3, 4, 5, 6, 7, 8⟩
  sign _ _ := List.replicate 64 1
  key := ()
  parsed := rfl
  length_sign _ _ _ := List.length_replicate
  verified _ _ _ := by simp [uniformLibraries]

def attestingMembers : List Word256 := [⟨1, 2, 3, 4, 5, 6, 7, 8⟩]

/-- What an attest cycle of the node leaves. -/
def cycleOf (node : AttestingNode Bool) (sending : Sending Bool) : AttestCycle Bool :=
  { attest uniformKeypair (fun _ => []) sending (node.prices.values .default) node.store with
    time := node.prices.now, values := node.prices.values .default }

def stepOf (node : AttestingNode Bool) (event : AttestationEvent Bool) : AttestingNode Bool :=
  node.step uniformKeypair attestingMembers event

/-- A poll of a source of LBTC/USD, answered at once. -/
def pollOf (node : AttestingNode Bool) (source : ℕ) (obs : SourceObservation) : AttestingNode Bool :=
  stepOf (stepOf node (.price (.pollBegins 0 source))) (.price (.pollEnds 0 source (.ok obs)))

/-- One of two peers cannot be reached. -/
def halfSending : Sending Bool := ⟨[true, false], id⟩

def fullSending : Sending Bool := ⟨[true, false], fun _ => true⟩

/-- A price was received. -/
def polledFirst : AttestingNode Bool :=
  pollOf (AttestingNode.started 1700000000) 0 (.new 6000000000000 8 1700000000 1700000000)

/-- It reached one of the peers, which holds it. -/
def halfAttested : AttestingNode Bool :=
  stepOf (stepOf polledFirst (.attest (fun _ => []) halfSending)) (.deliver true (cycleOf polledFirst halfSending))

def secondLater : AttestingNode Bool := stepOf halfAttested (.price (.clock 1700000001))

/-- The same source answered anew. -/
def polledAgain : AttestingNode Bool := pollOf secondLater 0 (.new 6200000000000 8 1700000001 1700000001)

/-- Another source answered, beside the price received before. -/
def polledBeside : AttestingNode Bool := pollOf secondLater 1 (.new 6200000000000 8 1700000001 1700000001)

variable {Meets : AttestingNode Bool → AttestationEvent Bool → Prop} {node : AttestingNode Bool}

theorem run_stepOf (hrun : Run uniformKeypair attestingMembers Meets node) (event : AttestationEvent Bool)
    (hallowed : node.Allowed uniformKeypair event) (hmeets : Meets node event) :
    Run uniformKeypair attestingMembers Meets (stepOf node event) := .step hrun hallowed hmeets

theorem now_step_poll (node : PriceNode) (source : ℕ) :
    (node.step (.pollBegins 0 source)).now = node.now ∧
      ∀ answer, (node.step (.pollEnds 0 source answer)).now = node.now := by
  unfold PriceNode.step
  dsimp only
  refine ⟨by split_ifs <;> rfl, fun answer => by split_ifs <;> rfl⟩

theorem now_pollOf (source : ℕ) (obs : SourceObservation) :
    (pollOf node source obs).prices.now = node.prices.now :=
  ((now_step_poll _ source).2 _).trans (now_step_poll _ source).1

theorem run_pollOf (hrun : Run uniformKeypair attestingMembers Meets node)
    (hmeets : ∀ node event, Meets node (.price event)) (source : ℕ) (price : UInt64) {time : UInt64}
    (hnow : node.prices.now = time) :
    Run uniformKeypair attestingMembers Meets (pollOf node source (.new price 8 time time)) := by
  have hbegin : (PriceEvent.pollBegins 0 source).Timely node.prices :=
    ⟨by rintro _ _ _ ⟨⟩, by rintro _ ⟨⟩, by rintro _ _ _ ⟨⟩⟩
  have hnow' : (stepOf node (.price (.pollBegins 0 source))).prices.now = time :=
    (now_step_poll _ source).1.trans hnow
  have hend : (PriceEvent.pollEnds 0 source (.ok (.new price 8 time time))).Timely
      (stepOf node (.price (.pollBegins 0 source))).prices := by
    refine ⟨?_, by rintro _ ⟨⟩, ?_⟩
    · rintro feed source obs ⟨⟩
      exact ⟨price, 8, time, time, rfl⟩
    · rintro feed source obs ⟨⟩
      rw [hnow']
      exact UInt64.le_refl _
  have hbegun := run_stepOf hrun (.price (.pollBegins 0 source)) hbegin (hmeets _ _)
  exact run_stepOf hbegun (.price (.pollEnds 0 source _)) hend (hmeets _ _)

theorem run_secondLater (hprice : ∀ node event, Meets node (.price event))
    (hattest : Meets polledFirst (.attest (fun _ => []) halfSending))
    (hdeliver : ∀ node peer cycle, Meets node (.deliver peer cycle)) :
    Run uniformKeypair attestingMembers Meets secondLater := by
  have hpolled : Run uniformKeypair attestingMembers Meets polledFirst :=
    run_pollOf (.started 1700000000) hprice 0 6000000000000 rfl
  have hattested : Run uniformKeypair attestingMembers Meets
      (stepOf polledFirst (.attest (fun _ => []) halfSending)) :=
    run_stepOf hpolled _ (fun cycle hcycle => absurd hcycle List.not_mem_nil) hattest
  have hheld : Run uniformKeypair attestingMembers Meets halfAttested :=
    run_stepOf hattested (.deliver true (cycleOf polledFirst halfSending))
      ⟨List.mem_cons_self, by decide +kernel⟩ (hdeliver _ _ _)
  have hnow : halfAttested.prices.now = 1700000000 := by decide +kernel
  have hclock : (PriceEvent.clock 1700000001).Timely halfAttested.prices := by
    refine ⟨by rintro _ _ _ ⟨⟩, ?_, by rintro _ _ _ ⟨⟩⟩
    rintro time ⟨⟩
    rw [hnow]
    decide
  exact run_stepOf hheld (.price (.clock 1700000001)) hclock (hprice _ _)

theorem secondLater_allowed (source : ℕ) (obs : SourceObservation) (sending : Sending Bool) :
    (pollOf secondLater source obs).Allowed uniformKeypair (.attest (fun _ => []) sending) := by
  intro cycle hcycle
  obtain rfl : cycle = cycleOf polledFirst halfSending := List.mem_singleton.mp hcycle
  have htime : (cycleOf polledFirst halfSending).time = 1700000000 := by decide +kernel
  rw [now_pollOf, htime]
  decide

/-- A newer price of the same source. -/
def newerPrice : PriceAttestation :=
  uniformKeypair.attestation (fun _ => []) ⟨0, 6200000000000, 8, 1700000001, 1700000301⟩

theorem superseding_polledAgain :
    Superseding uniformKeypair.publicKey polledAgain (.attest (fun _ => []) fullSending) := by
  intro before value after hvalues _ cycle hcycle _ old hold _ _
  have hone : polledAgain.prices.values .default = [newerPrice.feed] := by decide +kernel
  rw [hone] at hvalues
  obtain ⟨rfl, rfl⟩ : before = [] ∧ value = newerPrice.feed := by
    cases before with
    | nil => exact ⟨rfl, (List.cons.inj hvalues).1.symm⟩
    | cons _ before => simp at hvalues
  have holder : ∀ cycle ∈ polledAgain.cycles, ∀ old ∈ cycle.attestations,
      old.feed.receivedAt < newerPrice.feed.receivedAt := by decide +kernel
  refine ⟨.inl (holder cycle hcycle old ((List.takeWhile_sublist _).subset hold)), fun other hother _ => ?_⟩
  obtain rfl := List.mem_singleton.mp hother
  decide

/-- A later price is taken by the peer that was reached. -/
theorem attestations_supersede_later :
    (stepOf (stepOf polledAgain (.attest (fun _ => []) fullSending))
      (.deliver true (cycleOf polledAgain fullSending))).peers true newerPrice.key = some newerPrice := by
  have hrun : Run uniformKeypair attestingMembers (Superseding uniformKeypair.publicKey)
      (stepOf polledAgain (.attest (fun _ => []) fullSending)) := by
    refine run_stepOf ?_ (.attest (fun _ => []) fullSending) (secondLater_allowed 0 _ fullSending)
      superseding_polledAgain
    refine run_pollOf (run_secondLater (fun _ _ => trivial) ?_ fun _ _ _ => trivial) (fun _ _ => trivial) 0
      6200000000000 (by decide +kernel)
    exact fun _ _ _ _ _ cycle hcycle => absurd hcycle List.not_mem_nil
  exact (attestations_supersede (by decide) hrun).1 [] (cycleOf polledAgain fullSending)
    [cycleOf polledFirst halfSending] rfl true (by decide +kernel) newerPrice (by decide +kernel)
    (uniformKeypair.attestation (fun _ => []) ⟨0, 6000000000000, 8, 1700000000, 1700000300⟩) (by decide +kernel)
    (fun _ hcycle => absurd hcycle List.not_mem_nil) (by decide)

/-- The first price reached one peer of two, so it was not stored, and a new median with the same stamp is attested: the
peer that holds the first keeps it. -/
theorem new_value_not_taken : ∃ node : AttestingNode Bool,
    Run uniformKeypair attestingMembers (fun _ _ => True) node ∧ ∃ cycle earlier, node.cycles = cycle :: earlier ∧
      true ∈ cycle.reached ∧ ∃ new ∈ cycle.attestations, ∃ old ∈ earlier, ∃ held ∈ old.attestations,
        node.peers true new.key = some held ∧ ¬new.feed.SameValue held.feed ∧
          (node.step uniformKeypair attestingMembers (.deliver true cycle)).peers true new.key = some held := by
  have hpolled : Run uniformKeypair attestingMembers (fun _ _ => True) polledBeside :=
    run_pollOf (run_secondLater (fun _ _ => trivial) trivial fun _ _ _ => trivial) (fun _ _ => trivial) 1 6200000000000
      (by decide +kernel)
  have hattested : Run uniformKeypair attestingMembers (fun _ _ => True)
      (stepOf polledBeside (.attest (fun _ => []) fullSending)) :=
    run_stepOf hpolled (.attest (fun _ => []) fullSending) (secondLater_allowed 1 _ fullSending) trivial
  refine ⟨_, hattested, cycleOf polledBeside fullSending, [cycleOf polledFirst halfSending], rfl, by decide +kernel,
    uniformKeypair.attestation (fun _ => []) ⟨0, 6100000000000, 8, 1700000000, 1700000300⟩, by decide +kernel,
    cycleOf polledFirst halfSending, List.mem_cons_self,
    uniformKeypair.attestation (fun _ => []) ⟨0, 6000000000000, 8, 1700000000, 1700000300⟩, by decide +kernel,
    by decide +kernel, by decide +kernel, by decide +kernel⟩

end Example

end PriceOracle
