import PriceOracle.ContractUtxos
import PriceOracle.IssuanceAgreement
import PriceOracle.UserRequestLifecycle
import PriceOracle.Voting

/-!
# The leader's view of a round

`prepare_round_candidate` of `user_requests.rs` on a node: the queue is walked with what the leader reads of
its assets, its prices and the Elements node, and the batches that are chosen are built into a round. The
stored requests are those that the API accepted.
-/

namespace PriceOracle

/-- What `gettxout` shows of an output. Text that does not parse is `none`. -/
structure GetTxOut where
  confirmations : ℕ
  asset : Option (Option Bytes32)
  value : Option (Option ℕ)
  scriptPubkey : Option (List UInt8)

/-- What a leader reads while it prepares a round. -/
structure Leader where
  blockHeight : ℕ
  timestamp : ℕ
  lane : ℕ
  stormEye : Option (NetworkAsset Bytes32)
  tickAsset : Option (NetworkAsset Bytes32)
  verifierAsset : Option (NetworkAsset Bytes32)
  lanes : ElementsNode Bytes32
  tokens : TokenNode
  /-- `gettxout` with the mempool. -/
  getTxout : Bytes32 × ℕ → Except RpcFailure (Option GetTxOut)
  /-- The local price of a feed when a request asks for it. -/
  price : Bytes32 → UInt32 → Option PriceFeedData
  isReservedForBurning : FeeUtxo Bytes32 → Except Issuance.UserRequestError Bool
  estimatedWeight : LeaderRound → Except Issuance.UserRequestError ℕ

namespace IssuanceRound

open Issuance (okOr okOr_eq_ok_iff UserRequestError)

section Reading

/-- A fee UTXO as the store keeps it. -/
def storedFeeUtxo (feeUtxo : FeeUtxo (List UInt8)) : FeeUtxo Bytes32 := ⟨Markers.toKey feeUtxo.txid, feeUtxo.outputIndex⟩

/-- A transaction id is written backwards. -/
def outpointOf (feeUtxo : FeeUtxo Bytes32) : Bytes32 × ℕ :=
  (Markers.toKey feeUtxo.txid.toList.reverse, feeUtxo.outputIndex)

def toRequestError : IssuanceError → UserRequestError
  | .missingAsset _ => .missingAsset
  | .invalid message => .invalid message
  | .rpc _ => .rpc
  | .encoding => .invalid "failed to encode contract data"
  | .request error => error

/-- A batch, its owner and what the walk over the queue reads of it. -/
def decodedRequest (libraries : IssuanceLibraries) (encoded : List UInt8) : Except String (Issuance.DecodedRequest Bytes32) := do
  let (request, feeUtxos, namedFeed) ← validateEncodedRequest libraries encoded
  let publicKey ← (decodeArray request.header.publicKey).mapError fun _ => "invalid authentication data"
  return ⟨publicKey, request.requests.length, feeUtxos.map storedFeeUtxo, namedFeed⟩

end Reading

section Leading

variable (libraries : RoundLibraries) (programs : IssuancePrograms) (config : Issuance.ProtocolConfig) (leader : Leader)

/-- `explicit_outpoint` -/
def explicitOutpoint (outpoint : Bytes32 × ℕ) (output : GetTxOut) : Except UserRequestError (Utxo Bytes32) := do
  let asset ← okOr (.invalid "UTXO asset must be explicit") output.asset
  let asset ← okOr (.invalid "invalid UTXO asset") asset
  let value ← okOr (.invalid "UTXO value must be explicit") output.value
  let value ← okOr (.invalid "invalid UTXO value") value
  let script ← okOr (.invalid "invalid UTXO script") output.scriptPubkey
  return ⟨outpoint, asset, value, script⟩

def getConfirmedFeeOutpoint (feeUtxo : FeeUtxo Bytes32) : Except UserRequestError (Option (Utxo Bytes32)) := do
  match ← (leader.getTxout (outpointOf feeUtxo)).mapError fun _ => UserRequestError.rpc with
  | none => return none
  | some output =>
    if output.confirmations < Issuance.minFeeUtxoConfirmations then return none
    else (explicitOutpoint (outpointOf feeUtxo) output).map some

/-- The Storm Eye, and the lane's output of it. -/
def stormEyeLane : Except UserRequestError (NetworkAsset Bytes32 × Utxo Bytes32) := do
  let stormEye ← okOr .missingAsset leader.stormEye
  let utxo ← (leader.lanes.findContractUtxo stormEye.contractScript (some stormEye.assetId) (.userRequests leader.lane)).mapError
    .invalid
  return (stormEye, utxo)

/-- A fee UTXO that was there when the queue was walked. -/
def resolvedFeeUtxo (feeUtxo : FeeUtxo (List UInt8)) : Except UserRequestError (Utxo Bytes32) := do
  let found ← getConfirmedFeeOutpoint leader (storedFeeUtxo feeUtxo)
  okOr (.invalid "required UTXO is unavailable") found

/-- A batch that joined the round, as the walk decoded it. -/
def decodeBatch (accepted : Issuance.Accepted Bytes32) : Except UserRequestError DecodedBatch := do
  let (request, feeUtxos, namedFeed) ←
    (validateEncodedRequest libraries.toIssuanceLibraries accepted.stored.request).mapError .invalid
  let utxos ← feeUtxos.mapM (resolvedFeeUtxo leader)
  return ⟨accepted.requestHash, accepted.stored.request, request, utxos, namedFeed⟩

def leaderBuild (included : List (Issuance.Accepted Bytes32)) (instructed : Option PriceFeedData) :
    Except UserRequestError LeaderRound := do
  let (stormEye, stormEyeUtxo) ← stormEyeLane leader
  let batches ← included.mapM (decodeBatch libraries leader)
  (buildRound libraries programs leader.tokens stormEye leader.tickAsset leader.verifierAsset config leader.timestamp
    stormEyeUtxo batches instructed).mapError toRequestError

def leaderView : Issuance.RoundView Bytes32 LeaderRound where
  blockHeight := leader.blockHeight
  timestamp := leader.timestamp
  contracts := (stormEyeLane leader).map fun _ => ()
  validateEncodedRequest := decodedRequest libraries.toIssuanceLibraries
  price := leader.price
  policyAsset := programs.policyAsset
  accountScript := fun publicKey => leader.stormEye.elim [] fun stormEye => accountScript programs stormEye.assetId publicKey
  outpointText := fun feeUtxo => Voting.hexEncode feeUtxo.txid ++ ":" ++ toString feeUtxo.outputIndex
  isReservedForBurning := leader.isReservedForBurning
  confirmedFeeOutpoint := fun feeUtxo =>
    (getConfirmedFeeOutpoint leader feeUtxo).map (Option.map fun utxo => ⟨utxo.asset, utxo.scriptPubkey⟩)
  build := leaderBuild libraries programs config leader
  estimatedWeight := leader.estimatedWeight

/-- The node shows the UTXO. -/
def Shows (utxo : Utxo Bytes32) : Prop :=
  ∃ confirmations, leader.getTxout utxo.outpoint =
    .ok (some ⟨confirmations, some (some utxo.asset), some (some utxo.amount), some utxo.scriptPubkey⟩)

/-- The chain a leader works on: no asset of the network is the policy asset, of which there is a limited supply, a
scan finds outputs of the script it is asked for, and the price of a feed names it. -/
structure Leads : Prop where
  assets : ∀ asset, leader.stormEye = some asset ∨ leader.tickAsset = some asset ∨ leader.verifierAsset = some asset →
    asset.assetId ≠ programs.policyAsset
  lanes : leader.lanes.ScansScript
  prices : ∀ requestHash feed rate, leader.price requestHash feed = some rate → rate.feedId = feed
  supply : ∀ utxos : List (Utxo Bytes32), (utxos.map Utxo.outpoint).Nodup →
    (∀ utxo ∈ utxos, utxo.asset = programs.policyAsset ∧ Shows leader utxo) → (utxos.map Utxo.amount).sum < 2 ^ 64

end Leading

section Batches

variable {libraries : IssuanceLibraries} {encoded : List UInt8} {user : NetworkUserRequests}
  {feeUtxos : List (FeeUtxo (List UInt8))} {feed : Option UInt32}

/-- What a batch has once it is read. -/
theorem validateEncodedRequest_ok (h : validateEncodedRequest libraries encoded = .ok (user, feeUtxos, feed)) :
    UserApi.validateFeeUtxos user.header.feeUtxos = .ok feeUtxos ∧ UserApi.verifySignature libraries.toUserLibraries user = .ok () := by
  unfold validateEncodedRequest at h
  obtain ⟨decoded, -, h⟩ := Db.except_bind_ok.mp h
  obtain ⟨valid, hvalid, h⟩ := Db.except_bind_ok.mp h
  cases h
  rw [mapError_ok, UserApi.validateRequest] at hvalid
  split_ifs at hvalid
  obtain ⟨parsed, hparsed, hvalid⟩ := Db.except_bind_ok.mp hvalid
  obtain ⟨feed, -, hvalid⟩ := Db.except_bind_ok.mp hvalid
  obtain ⟨hsigned, hvalid⟩ := then_ok.mp hvalid
  cases hvalid
  exact ⟨hparsed, hsigned⟩

theorem parseHexArray_ok {count : ℕ} {text : List Char} {name : String} {bytes : List UInt8}
    (h : UserApi.parseHexArray count text name = .ok bytes) : UserApi.hexDecode text = some bytes ∧ bytes.length = count := by
  unfold UserApi.parseHexArray at h
  cases hbytes : UserApi.hexDecode text with
  | none =>
    rw [hbytes] at h
    cases h
  | some decoded =>
    rw [hbytes] at h
    dsimp only at h
    split_ifs at h with hlength
    cases h
    exact ⟨rfl, hlength⟩

/-- The owner of a batch has a key on the curve. -/
theorem ownerKey_ok (h : validateEncodedRequest libraries encoded = .ok (user, feeUtxos, feed)) :
    ∃ owner, ownerKey libraries user.header.publicKey = .ok owner := by
  obtain ⟨-, hsigned⟩ := validateEncodedRequest_ok h
  unfold UserApi.verifySignature at hsigned
  obtain ⟨bytes, hbytes, hsigned⟩ := Db.except_bind_ok.mp hsigned
  obtain ⟨hdecoded, hlength⟩ := parseHexArray_ok hbytes
  by_cases hcurve : libraries.xOnlyPublicKey bytes = true
  · refine ⟨Markers.toKey bytes, ?_⟩
    unfold ownerKey
    rw [hdecoded]
    exact if_pos ⟨hlength, hcurve⟩
  · rw [if_neg hcurve] at hsigned
    cases hsigned

/-- The ids of fee UTXOs have 32 bytes, and no fee UTXO is named twice. -/
theorem validateFeeUtxos_ok {texts : List String} (h : UserApi.validateFeeUtxos texts = .ok feeUtxos) :
    (∀ feeUtxo ∈ feeUtxos, feeUtxo.txid.length = 32) ∧ feeUtxos.Nodup := by
  unfold UserApi.validateFeeUtxos at h
  split_ifs at h
  refine Loops.foldlM_ok (P := fun _ (parsed : List (FeeUtxo (List UInt8))) =>
    (∀ feeUtxo ∈ parsed, feeUtxo.txid.length = 32) ∧ parsed.Nodup) ?_ ⟨by simp, List.nodup_nil⟩ h
  intro done text parsed next hparsed hstep
  unfold UserApi.validateFeeUtxo at hstep
  cases hsplit : UserApi.splitOnce ':' text.toList with
  | none =>
    rw [hsplit] at hstep
    cases hstep
  | some halves =>
    rw [hsplit] at hstep
    obtain ⟨txid, htxid, hstep⟩ := Db.except_bind_ok.mp hstep
    obtain ⟨-, hlength⟩ := parseHexArray_ok htxid
    cases hindex : UserApi.parseU32 halves.2 with
    | none =>
      rw [hindex] at hstep
      cases hstep
    | some index =>
      rw [hindex] at hstep
      dsimp only at hstep
      split_ifs at hstep with hnew
      cases hstep
      refine ⟨fun feeUtxo hmem => ?_, ?_⟩
      · rcases List.mem_append.mp hmem with hold | hlast
        · exact hparsed.1 feeUtxo hold
        · rw [List.mem_singleton.mp hlast]
          exact hlength
      · exact List.nodup_append.mpr ⟨hparsed.2, List.nodup_singleton _, by
          intro a ha b hb hab
          rw [List.mem_singleton.mp hb] at hab
          exact hnew (hab ▸ ha)⟩

theorem storedFeeUtxo_injOn {a b : FeeUtxo (List UInt8)} (ha : a.txid.length = 32) (hb : b.txid.length = 32)
    (h : storedFeeUtxo a = storedFeeUtxo b) : a = b := by
  unfold storedFeeUtxo at h
  injection h with htxid hindex
  have hbytes := congrArg Vector.toList htxid
  rw [Markers.toList_toKey ha, Markers.toList_toKey hb] at hbytes
  cases a
  cases b
  simp_all

theorem outpointOf_injective : Function.Injective outpointOf := by
  rintro ⟨txid, index⟩ ⟨txid', index'⟩ h
  unfold outpointOf at h
  injection h with htxid hindex
  have hbytes := congrArg Vector.toList htxid
  rw [Markers.toList_toKey (by simp), Markers.toList_toKey (by simp), List.reverse_inj] at hbytes
  have hkeys := congrArg Markers.toKey hbytes
  rw [Markers.toKey_toList, Markers.toKey_toList] at hkeys
  dsimp only at hkeys hindex
  rw [hkeys, hindex]

theorem feeOutpoint_stored {feeUtxo : FeeUtxo (List UInt8)} (h : feeUtxo.txid.length = 32) :
    feeOutpoint feeUtxo = .ok (outpointOf (storedFeeUtxo feeUtxo)) := by
  rw [feeOutpoint, if_pos h, outpointOf, storedFeeUtxo, Markers.toList_toKey h]

/-- A batch that the walk reads, as its bytes say. -/
theorem decodedRequest_ok {request : Issuance.DecodedRequest Bytes32} (h : decodedRequest libraries encoded = .ok request) :
    ∃ user feeUtxos owner, validateEncodedRequest libraries encoded = .ok (user, feeUtxos, request.namedFeed) ∧
      ownerKey libraries user.header.publicKey = .ok owner ∧ request.publicKey = owner ∧
      request.feeUtxos = feeUtxos.map storedFeeUtxo := by
  unfold decodedRequest at h
  obtain ⟨⟨user, feeUtxos, feed⟩, hread, h⟩ := Db.except_bind_ok.mp h
  obtain ⟨key, hkey, h⟩ := Db.except_bind_ok.mp h
  cases h
  obtain ⟨owner, howner⟩ := ownerKey_ok hread
  rw [mapError_ok] at hkey
  have hsame := decodeArray_of_ownerKey howner
  refine ⟨user, feeUtxos, owner, hread, howner, ?_, rfl⟩
  exact Except.ok.inj (hkey.symm.trans hsame)

end Batches

end IssuanceRound

end PriceOracle
