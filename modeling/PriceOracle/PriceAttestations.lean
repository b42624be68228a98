import PriceOracle.FeedSources
import PriceOracle.LatestRows
import PriceOracle.SignedPrices

/-!
# Price attestations

`high-storm/src/high_storm/prices.rs`: what a node attests of its feeds' values, and which attestations
of its peers it takes; `high-storm/src/db/price_attestation.rs`: the latest attestation of every node for
every feed, which is what the node has of its peers and what it compares its own values with.
-/

namespace PriceOracle

open Sha256 (Word256)

/-- A value, with the signature of the node that attests it. -/
structure PriceAttestation where
  feed : PriceFeedData
  signature : List UInt8
  publicKey : Word256
  deriving DecidableEq

inductive PriceError where
  | outOfRange (value : UInt64)
  | transport
  | invalidSignature (feed : UInt32)
  | invalidPublicKey
  | unregisteredFeed (feed : UInt32)
  | repeatedFeed (feed : UInt32)
  | implausibleTimestamp (feed : UInt32)
  | stretchedValidity (feed : UInt32)
  | wrongDecimals (feed : UInt32)
  | notAMember (publicKey : String)
  deriving DecidableEq

/-- The rows by public key and feed. -/
abbrev AttestationStore := Word256 × UInt32 → Option PriceAttestation

namespace PriceAttestation

def key (attestation : PriceAttestation) : Word256 × UInt32 := (attestation.publicKey, attestation.feed.feedId)

def stamp (attestation : PriceAttestation) : ℕ := attestation.feed.receivedAt.toNat

end PriceAttestation

namespace AttestationStore

/-- `to_i64` -/
def toI64 (value : UInt64) : Except PriceError UInt64 :=
  if value.toNat < 2 ^ 63 then .ok value else .error (.outOfRange value)

/-- What `attester` last attested for `feed`. -/
def lastAttested (store : AttestationStore) (attester : Word256) (feed : UInt32) : Option PriceFeedData :=
  (store (attester, feed)).map fun row => { row.feed with feedId := feed }

/-- False when `receivedAt` is not strictly greater than the one held. -/
def storeLatest (store : AttestationStore) (attestation : PriceAttestation) :
    Except PriceError (AttestationStore × Bool) := do
  let _ ← toI64 attestation.feed.price
  let _ ← toI64 attestation.feed.receivedAt
  let _ ← toI64 attestation.feed.validUntil
  if (store attestation.key).all fun row => row.feed.receivedAt < attestation.feed.receivedAt then
    return (Function.update store attestation.key (some attestation), true)
  else return (store, false)

/-- Each in turn, up to the first that cannot be stored. -/
def storeAll (store : AttestationStore) : List PriceAttestation → AttestationStore × Except PriceError Unit
  | [] => (store, .ok ())
  | attestation :: attestations =>
    match store.storeLatest attestation with
    | .error error => (store, .error error)
    | .ok (store, _) => store.storeAll attestations

end AttestationStore

section Check

variable {Key : Type} (libraries : SchnorrLibraries Key)

namespace PriceAttestation

def verify (attestation : PriceAttestation) : Except PriceError Unit :=
  match libraries.xOnlyFromSlice attestation.publicKey.bytes with
  | none => .error .invalidPublicKey
  | some publicKey =>
    if attestation.signature.length ≠ 64 then .error (.invalidSignature attestation.feed.feedId)
    else if libraries.verifySchnorr attestation.signature attestation.feed.priceHash publicKey = false then
      .error (.invalidSignature attestation.feed.feedId)
    else .ok ()

/-- The loop of `check`, with the feeds seen so far. -/
def checkFrom (members : List Word256) (registry : FeedRegistry) (now : UInt64) :
    List UInt32 → List PriceAttestation → Except PriceError Unit
  | _, [] => .ok ()
  | seen, attestation :: attestations =>
    if attestation.publicKey ∉ members then .error (.notAMember (OperatorWrite.hexText attestation.publicKey.bytes))
    else
      match registry.get attestation.feed.feedId with
      | none => .error (.unregisteredFeed attestation.feed.feedId)
      | some definition =>
        if attestation.feed.stampedAhead now then .error (.implausibleTimestamp attestation.feed.feedId)
        else if attestation.feed.validityStretched then .error (.stretchedValidity attestation.feed.feedId)
        else if attestation.feed.decimals ≠ definition.decimals then .error (.wrongDecimals attestation.feed.feedId)
        else if attestation.feed.feedId ∈ seen then .error (.repeatedFeed attestation.feed.feedId)
        else do
          attestation.verify libraries
          checkFrom members registry now (attestation.feed.feedId :: seen) attestations

/-- Every attestation in the message must pass, so a member cannot slip a bad entry in beside good ones. -/
def check (attestations : List PriceAttestation) (members : List Word256) (registry : FeedRegistry) (now : UInt64) :
    Except PriceError Unit :=
  checkFrom libraries members registry now [] attestations

/-- Keeps the latest attestation per (node, feed). -/
def handleAttestation (store : AttestationStore) (attestations : List PriceAttestation) (members : List Word256)
    (registry : FeedRegistry) (now : UInt64) : AttestationStore × Except PriceError Unit :=
  match check libraries attestations members registry now with
  | .error error => (store, .error error)
  | .ok () => store.storeAll attestations

end PriceAttestation

/-- A signing key; a signature is made of a message and of fresh random bytes. -/
structure Keypair where
  publicKey : Word256
  sign : List UInt8 → List UInt8 → List UInt8
  key : Key
  parsed : libraries.xOnlyFromSlice publicKey.bytes = some key
  length_sign : ∀ auxRand message, message.length = 32 → (sign auxRand message).length = 64
  verified : ∀ auxRand message, message.length = 32 →
    libraries.verifySchnorr (sign auxRand message) message key = true

end Check

section Attest

/-- What is left of a value to attest after the last one: nothing if it is unchanged, and otherwise a newer stamp. -/
def PriceFeedData.stampedAfter (feed : PriceFeedData) : Option PriceFeedData → Option PriceFeedData
  | none => some feed
  | some last =>
    if feed.receivedAt ≤ last.receivedAt then
      if { feed with receivedAt := last.receivedAt } = last then none
      else some { feed with receivedAt := last.receivedAt + 1 }
    else some feed

/-- A message is queued for every recipient whose connection accepts it. -/
structure Sending (Peer : Type) where
  recipients : List Peer
  accepts : Peer → Bool

namespace Sending

variable {Peer : Type} (sending : Sending Peer)

def reached : List Peer := sending.recipients.filter sending.accepts

/-- Fails if any recipient was not reached, also when others were. -/
def result : Except PriceError Unit :=
  if sending.recipients.all sending.accepts then .ok () else .error .transport

end Sending

/-- What an attest cycle did. -/
structure Attested (Peer : Type) where
  attestations : List PriceAttestation
  reached : List Peer
  store : AttestationStore
  result : Except PriceError ℕ

variable {Key Peer : Type} {libraries : SchnorrLibraries Key} (keypair : Keypair libraries)

/-- `Prices::sign` -/
def Keypair.attestation (auxRand : UInt32 → List UInt8) (feed : PriceFeedData) : PriceAttestation :=
  ⟨feed, keypair.sign (auxRand feed.feedId) feed.priceHash, keypair.publicKey⟩

/-- The attestations of the values that are not what was last attested. -/
def Keypair.attestations (auxRand : UInt32 → List UInt8) (store : AttestationStore) (values : List PriceFeedData) :
    List PriceAttestation :=
  values.filterMap fun feed =>
    (feed.stampedAfter (store.lastAttested keypair.publicKey feed.feedId)).map (keypair.attestation auxRand)

/-- Its own attestation is held like any other, once every peer was reached. -/
def attest (auxRand : UInt32 → List UInt8) (sending : Sending Peer) (values : List PriceFeedData)
    (store : AttestationStore) : Attested Peer :=
  match keypair.attestations auxRand store values with
  | [] => ⟨[], [], store, .ok 0⟩
  | attestations =>
    match sending.result with
    | .error error => ⟨attestations, sending.reached, store, .error error⟩
    | .ok () =>
      match store.storeAll attestations with
      | (store, .error error) => ⟨attestations, sending.reached, store, .error error⟩
      | (store, .ok ()) => ⟨attestations, sending.reached, store, .ok attestations.length⟩

/-- The values of the registry's feeds. -/
def PriceNode.values (registry : FeedRegistry) (node : PriceNode) : List PriceFeedData :=
  registry.feeds.filterMap fun definition => node.feeds.value node.now definition.id

end Attest

section Stored

open AttestationStore

/-- Everything of the attestation fits in the integers of the database. -/
def PriceAttestation.Storable (attestation : PriceAttestation) : Prop :=
  attestation.feed.price.toNat < 2 ^ 63 ∧ attestation.feed.receivedAt.toNat < 2 ^ 63 ∧
    attestation.feed.validUntil.toNat < 2 ^ 63

instance : DecidablePred PriceAttestation.Storable := fun attestation => by
  unfold PriceAttestation.Storable
  infer_instance

variable {store : AttestationStore} {attestation : PriceAttestation} {attestations : List PriceAttestation}

theorem toI64_of_lt {value : UInt64} (h : value.toNat < 2 ^ 63) : toI64 value = .ok value := if_pos h

theorem lt_of_toI64 {value stored : UInt64} (h : toI64 value = .ok stored) : value.toNat < 2 ^ 63 := by
  unfold toI64 at h
  split_ifs at h with hlt
  exact hlt

/-- Storing keeps the latest row. -/
theorem storeLatest_of_storable (h : attestation.Storable) : ∃ stored, store.storeLatest attestation =
    .ok (LatestRows.keep PriceAttestation.key PriceAttestation.stamp store attestation, stored) := by
  obtain ⟨hprice, hreceived, hvalid⟩ := h
  have hnewer : ((store attestation.key).all fun row =>
      decide (row.feed.receivedAt < attestation.feed.receivedAt)) = true ↔
      LatestRows.Newer PriceAttestation.key PriceAttestation.stamp store attestation := by
    unfold LatestRows.Newer PriceAttestation.stamp
    simp only [Option.all_eq_true, decide_eq_true_eq, Option.mem_def, UInt64.lt_iff_toNat_lt]
  unfold storeLatest LatestRows.keep
  rw [toI64_of_lt hprice, toI64_of_lt hreceived, toI64_of_lt hvalid]
  by_cases hlater : LatestRows.Newer PriceAttestation.key PriceAttestation.stamp store attestation
  · rw [if_pos hlater]
    exact ⟨true, if_pos (hnewer.mpr hlater)⟩
  · rw [if_neg hlater]
    exact ⟨false, if_neg (mt hnewer.mp hlater)⟩

theorem storable_of_storeLatest {result : AttestationStore × Bool}
    (h : store.storeLatest attestation = .ok result) : attestation.Storable := by
  obtain ⟨_, hprice, h⟩ := Db.except_bind_ok.mp h
  obtain ⟨_, hreceived, h⟩ := Db.except_bind_ok.mp h
  obtain ⟨_, hvalid, -⟩ := Db.except_bind_ok.mp h
  exact ⟨lt_of_toI64 hprice, lt_of_toI64 hreceived, lt_of_toI64 hvalid⟩

theorem storeAll_fst : (store.storeAll attestations).1 = LatestRows.keepAll PriceAttestation.key
    PriceAttestation.stamp store (attestations.takeWhile fun attestation => attestation.Storable) := by
  induction attestations generalizing store with
  | nil => rfl
  | cons attestation attestations ih =>
    unfold storeAll
    by_cases h : attestation.Storable
    · obtain ⟨stored, hstored⟩ := @storeLatest_of_storable store attestation h
      rw [hstored, List.takeWhile_cons_of_pos (by simpa using h)]
      exact ih
    · rw [List.takeWhile_cons_of_neg (by simpa using h)]
      cases hresult : store.storeLatest attestation with
      | error error => rfl
      | ok result => exact absurd (storable_of_storeLatest hresult) h

theorem storeAll_snd_ok_iff :
    (store.storeAll attestations).2 = .ok () ↔ ∀ attestation ∈ attestations, attestation.Storable := by
  induction attestations generalizing store with
  | nil => simp [storeAll]
  | cons attestation attestations ih =>
    unfold storeAll
    rw [List.forall_mem_cons]
    by_cases h : attestation.Storable
    · obtain ⟨stored, hstored⟩ := @storeLatest_of_storable store attestation h
      rw [hstored]
      simpa [h] using ih
    · cases hresult : store.storeLatest attestation with
      | error error => simp [h]
      | ok result => exact absurd (storable_of_storeLatest hresult) h

end Stored

section Checked

open PriceAttestation

variable {Key : Type} {libraries : SchnorrLibraries Key} {members : List Word256} {registry : FeedRegistry}
  {now : UInt64} {attestations : List PriceAttestation}

/-- What `check` asks of each attestation. -/
structure PriceAttestation.Checked (libraries : SchnorrLibraries Key) (members : List Word256)
    (registry : FeedRegistry) (now : UInt64) (attestation : PriceAttestation) : Prop where
  member : attestation.publicKey ∈ members
  definition : ∃ definition, registry.get attestation.feed.feedId = some definition ∧
    attestation.feed.decimals = definition.decimals
  stamped : attestation.feed.stampedAhead now = false
  window : attestation.feed.validityStretched = false
  verified : attestation.verify libraries = .ok ()

theorem checkFrom_ok {seen : List UInt32}
    (h : ∀ attestation ∈ attestations, attestation.Checked libraries members registry now)
    (hfeeds : (attestations.map fun attestation => attestation.feed.feedId).Nodup)
    (hseen : ∀ attestation ∈ attestations, attestation.feed.feedId ∉ seen) :
    checkFrom libraries members registry now seen attestations = .ok () := by
  induction attestations generalizing seen with
  | nil => rfl
  | cons attestation attestations ih =>
    obtain ⟨hmember, ⟨definition, hdefinition, hdecimals⟩, hstamped, hwindow, hverified⟩ :=
      h attestation List.mem_cons_self
    obtain ⟨hnew, hfeeds⟩ := List.nodup_cons.mp hfeeds
    have hrest : checkFrom libraries members registry now (attestation.feed.feedId :: seen) attestations = .ok () := by
      refine ih (fun other hother => h other (List.mem_cons_of_mem _ hother)) hfeeds fun other hother hmem => ?_
      rcases List.mem_cons.mp hmem with heq | hmem
      · exact hnew (List.mem_map.mpr ⟨other, hother, heq⟩)
      · exact hseen other (List.mem_cons_of_mem _ hother) hmem
    unfold checkFrom
    rw [if_neg (not_not.mpr hmember), hdefinition]
    dsimp only
    rw [if_neg (by simp [hstamped]), if_neg (by simp [hwindow]), if_neg (not_not.mpr hdecimals),
      if_neg (hseen attestation List.mem_cons_self), hverified]
    exact hrest

theorem check_ok (h : ∀ attestation ∈ attestations, attestation.Checked libraries members registry now)
    (hfeeds : (attestations.map fun attestation => attestation.feed.feedId).Nodup) :
    check libraries attestations members registry now = .ok () :=
  checkFrom_ok h hfeeds fun _ _ => List.not_mem_nil

variable (keypair : Keypair libraries) (auxRand : UInt32 → List UInt8)

/-- What a key signs verifies. -/
theorem Keypair.verify_attestation (feed : PriceFeedData) :
    (keypair.attestation auxRand feed).verify libraries = .ok () := by
  unfold PriceAttestation.verify Keypair.attestation
  have hlength : feed.priceHash.length = 32 := Word256.length_bytes _
  rw [keypair.parsed]
  dsimp only
  rw [if_neg (not_not.mpr (keypair.length_sign _ _ hlength)), if_neg (by simp [keypair.verified _ _ hlength])]

end Checked

section Stamps

variable {feed last stamped : PriceFeedData} {held : Option PriceFeedData}

/-- Equal but for when they were received. -/
def PriceFeedData.SameValue (feed last : PriceFeedData) : Prop := { feed with receivedAt := last.receivedAt } = last

instance : Decidable (feed.SameValue last) := by
  unfold PriceFeedData.SameValue
  infer_instance

theorem PriceFeedData.sameValue_iff : feed.SameValue last ↔ feed.feedId = last.feedId ∧
    feed.price = last.price ∧ feed.decimals = last.decimals ∧ feed.validUntil = last.validUntil := by
  unfold PriceFeedData.SameValue
  cases feed
  cases last
  simp

/-- Nothing is attested of a value exactly if it is what is held, and no newer. -/
theorem stampedAfter_eq_none_iff : feed.stampedAfter held = none ↔
    ∃ last, held = some last ∧ feed.receivedAt ≤ last.receivedAt ∧ feed.SameValue last := by
  unfold PriceFeedData.SameValue
  cases held with
  | none => simp [PriceFeedData.stampedAfter]
  | some last =>
    unfold PriceFeedData.stampedAfter
    dsimp only
    split_ifs with hle hsame
    · simp [hle, hsame]
    · simp [hsame]
    · simp [hle]

/-- What is attested is the value, stamped when it was received or right after what is held. -/
theorem stampedAfter_eq_some (h : feed.stampedAfter held = some stamped) : feed.SameValue stamped ∧
    (stamped.receivedAt = feed.receivedAt ∧ (∀ last ∈ held, last.receivedAt < feed.receivedAt) ∨
      ∃ last, held = some last ∧ feed.receivedAt ≤ last.receivedAt ∧ stamped.receivedAt = last.receivedAt + 1) := by
  cases held with
  | none =>
    cases h
    exact ⟨rfl, .inl ⟨rfl, by simp⟩⟩
  | some last =>
    unfold PriceFeedData.stampedAfter at h
    dsimp only at h
    split_ifs at h with hle hsame
    · cases h
      exact ⟨rfl, .inr ⟨last, rfl, hle, rfl⟩⟩
    · cases h
      refine ⟨rfl, .inl ⟨rfl, fun other hother => ?_⟩⟩
      cases hother
      exact UInt64.not_le.mp hle

end Stamps

end PriceOracle
